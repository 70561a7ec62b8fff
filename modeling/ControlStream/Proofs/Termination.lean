import ControlStream.Proofs.Progress
import Mathlib.Logic.Function.Iterate

/-!
# Termination

The loops of an interpreter as loops: the one over the input, and in each of its rounds the one over
the characters of a string, all with a bound on the number of their rounds. Whatever the interpreter
and the input, a number of rounds known in advance is enough, no character is ever pushed back
while another one waits to be read again, and all of the input is read.

The one thing that may stop an interpreter on its way is the count of the characters skipped, if
the machine word that holds it is checked for overflow. This takes a count and an input that are
too long together for a machine word.

## Main definitions

* `Failure`: why an interpreter may stop on its way.
* `Counting`: whether the count of the characters skipped is checked for overflow.
* `Payload.takeFor`: the loop over the characters of a string.
* `Interpreter.runFor`: the loop over the input.

## Main statements

* `Payload.takeFor_eq`: a round for each character is enough for a string.
* `Interpreter.runFor_wrapping`: as many rounds as there is work are enough for the input.
* `Interpreter.runFor_checked`: what it takes for a checked count to make a difference.
* `Interpreter.run_terminates`: all loops end, without a character pushed back in vain and with the
  input empty.
-/

namespace ControlStream

inductive Failure
  | slotOccupied
  /-- A machine word that is checked has no room for the number of characters skipped. -/
  | overflow
  /-- More rounds are needed than are allowed. -/
  | outOfRounds
  deriving DecidableEq, Repr

def Failure.ofSlot (_ : SlotOccupied) : Failure := slotOccupied

inductive Counting
  /-- The count begins anew. -/
  | wrapping
  /-- Counting fails. -/
  | checked
  deriving DecidableEq, Repr

def Counting.count : Counting → UInt64 → Except Failure UInt64
  | wrapping, n => .ok (n + 1)
  | checked, n => if n.toNat + 1 < UInt64.size then .ok (n + 1) else .error .overflow

/-- Counting on from a number, and beginning anew where a machine word has no more room. -/
theorem iterate_succ_uint64 (n : UInt64) (k : Nat) : (· + 1)^[k] n = n + .ofNat k := by
  induction k generalizing n with
  | zero => exact (UInt64.add_zero n).symm
  | succ k ih =>
    rw [Function.iterate_succ_apply, ih, UInt64.add_assoc, UInt64.add_comm 1, UInt64.ofNat_add]
    rfl

/-! ### The loop of a string -/

/-- What is left once characters were taken for a string, and the tally of those that left it
open. -/
structure Taken (α : Type) where
  payload : Payload
  tally : α
  /-- Who receives the next character, if the string has ended. -/
  next : Option Interpreter.State
  input : Input

namespace Payload

variable {α : Type}

/-- Leave a string that has ended, and put back the character that interrupted it. -/
def leave (p : Payload) (tally : α) (input : Input) : Except Failure (Taken α) :=
  match p.interrupt with
  | none => .ok ⟨p, tally, some .ready, input⟩
  | some d => do
    let input ← (input.pushBack d).mapError .ofSlot
    return ⟨p, tally, some .escape, input⟩

/-- Take characters for a string, up to its end or to the end of the input, in at most the given
number of rounds. Those that leave the string open are counted. -/
def takeFor (count : α → Except Failure α) : Nat → Payload → α → Input → Except Failure (Taken α)
  | 0, _, _, _ => .error .outOfRounds
  | rounds + 1, p, tally, input =>
    match input.read with
    | (none, input) => .ok ⟨p, tally, none, input⟩
    | (some c, input) =>
      let p := p.feed c
      if p.isComplete then p.leave tally input
      else do
        let tally ← count tally
        if input.isEmpty then return ⟨p, tally, none, input⟩
        else p.takeFor count rounds tally input

section TakeFor

variable {count : α → Except Failure α} {p : Payload} {c : Char}

/-- A character in the slot is as good as one in front of the queue. -/
theorem takeFor_slot (rounds : Nat) (p : Payload) (tally : α) (c : Char) (s : List Char) :
    p.takeFor count rounds tally ⟨some c, s⟩ = p.takeFor count rounds tally ⟨none, c :: s⟩ := by
  cases rounds <;> rfl

theorem takeFor_of_ended {interrupt : Option Char} (h : (p.feed c).stage = .ended interrupt)
    (rounds : Nat) (tally : α) (s : List Char) :
    p.takeFor count (rounds + 1) tally ⟨none, c :: s⟩ =
      .ok ⟨p.feed c, tally, some (Interpreter.stateAfter interrupt), ⟨interrupt, s⟩⟩ := by
  obtain ⟨hcomplete, rfl⟩ := stage_eq_ended_iff.mp h
  simp only [takeFor, Input.read, hcomplete, if_true, leave]
  cases (p.feed c).interrupt <;> rfl

theorem takeFor_of_open (h : (p.feed c).isComplete = false) (rounds : Nat) (tally : α)
    (s : List Char) :
    p.takeFor count (rounds + 1) tally ⟨none, c :: s⟩ =
      (count tally).bind fun tally =>
        if s.isEmpty then .ok ⟨p.feed c, tally, none, ⟨none, s⟩⟩
        else (p.feed c).takeFor count rounds tally ⟨none, s⟩ := by
  simp only [takeFor, Input.read, h]
  rfl

end TakeFor

/-- A round for each character is enough, if counting does not fail. -/
theorem takeFor_eq (next : α → α) (p : Payload) (tally : α) (c : Char) (s : List Char)
    {rounds : Nat} (h : s.length < rounds) :
    p.takeFor (fun a => .ok (next a)) rounds tally ⟨none, c :: s⟩ =
      ((p.collect c ⟨none, s⟩).map fun r =>
        ⟨r.payload, next^[r.count] tally, r.next, r.input⟩).mapError .ofSlot := by
  obtain ⟨n, rfl⟩ : ∃ n, rounds = n + 1 := ⟨rounds - 1, by omega⟩
  induction s generalizing p tally c n with
  | nil =>
    by_cases hcomplete : (p.feed c).isComplete = true
    · obtain ⟨interrupt, hstage⟩ := isComplete_iff.mp hcomplete
      rw [takeFor_of_ended hstage, collect_of_ended hstage]
      rfl
    · have hopen := Bool.eq_false_iff.mpr hcomplete
      rw [takeFor_of_open hopen, collect_nil hopen]
      rfl
  | cons d s ih =>
    by_cases hcomplete : (p.feed c).isComplete = true
    · obtain ⟨interrupt, hstage⟩ := isComplete_iff.mp hcomplete
      rw [takeFor_of_ended hstage, collect_of_ended hstage]
      rfl
    · have hopen := Bool.eq_false_iff.mpr hcomplete
      obtain ⟨m, rfl⟩ : ∃ m, n = m + 1 := ⟨n - 1, by simp at h; omega⟩
      have hlength : s.length < m + 1 := by simpa using h
      have hrest := ih (p.feed c) (next tally) d m hlength
      rw [takeFor_of_open hopen, collect_cons hopen]
      refine hrest.trans ?_
      cases (p.feed c).collect d ⟨none, s⟩ <;> rfl

/-- Checking the count makes no difference unless a machine word has no room for the count so far
and the characters left together. -/
theorem takeFor_checked (rounds : Nat) (p : Payload) (n : UInt64) (input : Input) :
    p.takeFor Counting.checked.count rounds n input =
        p.takeFor Counting.wrapping.count rounds n input ∨
      p.takeFor Counting.checked.count rounds n input = .error .overflow ∧
        UInt64.size ≤ n.toNat + input.length := by
  induction rounds generalizing p n input with
  | zero => exact .inl rfl
  | succ rounds ih =>
    match hread : input.read with
    | (none, rest) =>
      left
      simp only [takeFor, hread]
    | (some c, rest) =>
      have hlength := Input.length_read hread
      simp only [takeFor, hread]
      split
      · exact .inl rfl
      · by_cases hroom : n.toNat + 1 < UInt64.size
        · have hnext : (n + 1).toNat = n.toNat + 1 := by
            rw [UInt64.toNat_add]
            exact Nat.mod_eq_of_lt hroom
          have hchecked : Counting.checked.count n = .ok (n + 1) := if_pos hroom
          have hwrapping : Counting.wrapping.count n = .ok (n + 1) := rfl
          simp only [hchecked, hwrapping, bind, Except.bind]
          split
          · exact .inl rfl
          · have hrest := ih (p.feed c) (n + 1) rest
            rw [hnext] at hrest
            have hsame : n.toNat + 1 + rest.length = n.toNat + input.length := by omega
            rwa [hsame] at hrest
        · have hfails : Counting.checked.count n = .error .overflow := if_neg hroom
          rw [hfails]
          exact .inr ⟨rfl, by omega⟩

/-- No more characters are counted than were there. -/
theorem count_collect {p : Payload} {c : Char} {s : List Char} {r : Collected}
    (h : p.collect c ⟨none, s⟩ = .ok r) : r.count + r.input.length ≤ s.length + 1 := by
  rw [collect_eq, Except.ok.injEq] at h
  have hle := length_consume_cons_le p c s
  generalize p.consume (c :: s) = taken at h hle
  subst h
  unfold Collected.ofRest
  split
  · rename_i interrupt _
    have hslot : interrupt.toList.length ≤ 1 := by cases interrupt <;> simp
    simp only [Input.length]
    omega
  · simp only [Input.length, Option.toList_none, List.length_nil]
    omega

end Payload

/-! ### The processors of strings -/

section Processors

variable {σ κ : Type}

/-- Take a character for a command and those after it, in at most the given number of rounds. -/
def CommandString.processFor [Clipboard κ] (rounds : Nat) (s : CommandString) (c : Char)
    (input : Input) (ctx : Context σ κ) : Except Failure (Step CommandString σ κ × Input) := do
  let input ← (input.pushBack c).mapError .ofSlot
  let payload := s.payload.setLimit ctx.settings.payloadLimit
  let taken ← payload.takeFor .ok rounds () input
  let s : CommandString := ⟨taken.payload⟩
  match taken.next with
  | some state => return (⟨state, s.reset, s.finish ctx⟩, taken.input)
  | none => return (⟨.command, s, ctx⟩, taken.input)

/-- Skip a character and those after it, in at most the given number of rounds. -/
def SkippedString.processFor (counting : Counting) (rounds : Nat) (s : SkippedString) (c : Char)
    (input : Input) (ctx : Context σ κ) : Except Failure (Step SkippedString σ κ × Input) := do
  let input ← (input.pushBack c).mapError .ofSlot
  let taken ← s.payload.takeFor counting.count rounds s.skipped input
  let s : SkippedString := ⟨taken.payload, taken.tally⟩
  match taken.next with
  | some state => return (⟨state, s.reset, ctx.log (.ignoredString s.skipped.toNat)⟩, taken.input)
  | none => return (⟨.skipped, s, ctx⟩, taken.input)

/-- The loop of a command comes to an end. It fails exactly if the character cannot be put back. -/
theorem CommandString.processFor_eq [Clipboard κ] (s : CommandString) (c : Char) (input : Input)
    (ctx : Context σ κ) :
    s.processFor (input.length + 1) c input ctx = (s.process c input ctx).mapError .ofSlot := by
  obtain ⟨slot, queue⟩ := input
  cases slot with
  | some d => rfl
  | none =>
    have htake (p : Payload) :
        p.takeFor .ok ((Input.mk none queue).length + 1) () ⟨none, c :: queue⟩ = _ :=
      p.takeFor_eq id () c queue (Nat.lt_succ_self queue.length)
    simp only [processFor, process, Input.pushBack_mk_none, Except.mapError, bind, Except.bind,
      Payload.takeFor_slot, htake]
    cases (s.payload.setLimit ctx.settings.payloadLimit).collect c ⟨none, queue⟩ with
    | error e => rfl
    | ok r =>
      simp only [Except.map]
      cases r.next <;> rfl

/-- The loop of a string that is skipped comes to an end. It fails exactly if the character cannot
be put back. -/
theorem SkippedString.processFor_wrapping (s : SkippedString) (c : Char) (input : Input)
    (ctx : Context σ κ) :
    s.processFor .wrapping (input.length + 1) c input ctx =
      (s.process c input ctx).mapError .ofSlot := by
  obtain ⟨slot, queue⟩ := input
  cases slot with
  | some d => rfl
  | none =>
    have htake (n : UInt64) : s.payload.takeFor Counting.wrapping.count
        ((Input.mk none queue).length + 1) n ⟨none, c :: queue⟩ = _ :=
      s.payload.takeFor_eq (· + 1) n c queue (Nat.lt_succ_self queue.length)
    simp only [processFor, process, Input.pushBack_mk_none, Except.mapError, bind, Except.bind,
      Payload.takeFor_slot, htake]
    cases s.payload.collect c ⟨none, queue⟩ with
    | error e => rfl
    | ok r =>
      simp only [Except.map, iterate_succ_uint64]
      cases r.next <;> rfl

/-- Checking the count makes no difference unless it overflows. -/
theorem SkippedString.processFor_checked (rounds : Nat) (s : SkippedString) (c : Char)
    (input : Input) (ctx : Context σ κ) :
    s.processFor .checked rounds c input ctx = s.processFor .wrapping rounds c input ctx ∨
      s.processFor .checked rounds c input ctx = .error .overflow ∧
        UInt64.size ≤ s.skipped.toNat + (input.length + 1) := by
  obtain ⟨slot, queue⟩ := input
  cases slot with
  | some d => exact .inl rfl
  | none =>
    have hlength : (Input.mk (some c) queue).length = (Input.mk none queue).length + 1 := rfl
    have htake := Payload.takeFor_checked rounds s.payload s.skipped ⟨some c, queue⟩
    rw [hlength] at htake
    simp only [processFor, Input.pushBack_mk_none, Except.mapError, bind, Except.bind]
    rcases htake with htake | ⟨htake, hlong⟩
    · rw [htake]
      exact .inl rfl
    · rw [htake]
      exact .inr ⟨rfl, hlong⟩

/-- The characters counted and those that wait do not become more. -/
theorem SkippedString.skipped_process_le {s : SkippedString} {c : Char} {input : Input}
    (hslot : input.slot = none) {ctx : Context σ κ} {result : Step SkippedString σ κ × Input}
    (h : s.process c input ctx = .ok result) :
    result.1.part.skipped.toNat + result.2.length ≤ s.skipped.toNat + (input.length + 1) := by
  obtain ⟨r, hcollect⟩ := s.payload.collect_ok c hslot
  obtain ⟨slot, queue⟩ := input
  obtain rfl : slot = none := hslot
  have hcount := Payload.count_collect hcollect
  have hlength : (Input.mk none queue).length = queue.length := rfl
  have hsum : (s.skipped + .ofNat r.count).toNat ≤ s.skipped.toNat + r.count := by
    rw [UInt64.toNat_add, UInt64.toNat_ofNat']
    omega
  simp only [process, hcollect, bind, Except.bind, pure, Except.pure] at h
  split at h
  · cases h
    simp only [reset, UInt64.toNat_zero]
    omega
  · cases h
    simp only
    omega

theorem Failure.mapError_ofSlot_ne {α : Type} (x : Except SlotOccupied α) :
    x.mapError ofSlot ≠ .error .outOfRounds := by
  cases x <;> simp [Except.mapError, ofSlot]

/-- A round for each character that waits and one for the character taken are enough, whatever
becomes of the count. -/
theorem SkippedString.processFor_ne_outOfRounds (counting : Counting) (s : SkippedString)
    (c : Char) (input : Input) (ctx : Context σ κ) :
    s.processFor counting (input.length + 1) c input ctx ≠ .error .outOfRounds := by
  have hwrapping := s.processFor_wrapping c input ctx
  cases counting with
  | wrapping =>
    rw [hwrapping]
    exact Failure.mapError_ofSlot_ne _
  | checked =>
    rcases s.processFor_checked (input.length + 1) c input ctx with hsame | ⟨hfails, -⟩
    · rw [hsame, hwrapping]
      exact Failure.mapError_ofSlot_ne _
    · simp [hfails]

end Processors

/-! ### The loop over the input -/

namespace Interpreter

variable {σ κ : Type} [Screen σ] [Clipboard κ]

/-- Interpret a character. The loop of a string has a round for each character that waits, and one
for the character itself. -/
def stepFor (counting : Counting) (i : Interpreter) (c : Char) (input : Input)
    (ctx : Context σ κ) : Except Failure (Delivery σ κ) :=
  match i.state with
  | .command => do
    let (step, input) ← i.command.processFor (input.length + 1) c input ctx
    return ⟨{ i with state := step.state, command := step.part }, input, step.context⟩
  | .skipped => do
    let (step, input) ← i.skipped.processFor counting (input.length + 1) c input ctx
    return ⟨{ i with state := step.state, skipped := step.part }, input, step.context⟩
  | _ => (i.step c input ctx).mapError .ofSlot

/-- Interpret the input in at most the given number of rounds. -/
def runFor (counting : Counting) :
    Nat → Interpreter → Input → Context σ κ → Except Failure (Delivery σ κ)
  | 0, _, _, _ => .error .outOfRounds
  | rounds + 1, i, input, ctx =>
    match input.read with
    | (none, input) => .ok ⟨i, input, ctx⟩
    | (some c, input) => do
      let next ← i.stepFor counting c input ctx
      runFor counting rounds next.interpreter next.input next.context

variable (i : Interpreter) (c : Char) (ctx : Context σ κ)

theorem stepFor_wrapping (input : Input) :
    i.stepFor .wrapping c input ctx = (i.step c input ctx).mapError .ofSlot := by
  unfold stepFor
  split
  · rename_i hstate
    rw [CommandString.processFor_eq, step, hstate]
    cases i.command.process c input ctx <;> rfl
  · rename_i hstate
    rw [SkippedString.processFor_wrapping, step, hstate]
    cases i.skipped.process c input ctx <;> rfl
  · rfl

theorem stepFor_checked (input : Input) :
    i.stepFor .checked c input ctx = i.stepFor .wrapping c input ctx ∨
      i.stepFor .checked c input ctx = .error .overflow ∧
        UInt64.size ≤ i.skipped.skipped.toNat + (input.length + 1) := by
  unfold stepFor
  split
  · exact .inl rfl
  · rcases i.skipped.processFor_checked (input.length + 1) c input ctx with hsame | ⟨hfails, hlong⟩
    · rw [hsame]
      exact .inl rfl
    · rw [hfails]
      exact .inr ⟨rfl, hlong⟩
  · exact .inl rfl

variable {i c ctx}

/-- The characters counted and those that wait do not become more. -/
theorem skipped_step_le {input : Input} (hslot : input.slot = none) {next : Delivery σ κ}
    (h : i.step c input ctx = .ok next) :
    next.interpreter.skipped.skipped.toNat + next.input.length ≤
      i.skipped.skipped.toNat + (input.length + 1) := by
  rcases step_cases h with ⟨-, hinput, hskipped⟩ | ⟨-, result, hprocess, rfl⟩ |
    ⟨-, result, hprocess, rfl⟩
  · rw [hinput, hskipped]
    exact Nat.add_le_add_left (Nat.le_succ _) _
  · have hlength := CommandString.length_process hslot hprocess
    simp only
    omega
  · exact SkippedString.skipped_process_le hslot hprocess

/-- As many rounds as there is work are enough, and one more to find the input empty. -/
theorem runFor_wrapping {rounds : Nat} {i : Interpreter} {input : Input}
    (h : i.work input < rounds) (ctx : Context σ κ) :
    runFor .wrapping rounds i input ctx = (i.run input ctx).mapError .ofSlot := by
  induction rounds generalizing i input ctx with
  | zero => omega
  | succ rounds ih =>
    rw [runFor]
    split
    · rename_i rest hread
      rw [run_of_read_none hread]
      rfl
    · rename_i c rest hread
      obtain ⟨next, hnext⟩ := i.step_ok c (Input.slot_of_read hread) ctx
      have hless := work_step_lt hread hnext
      rw [run_of_read_some hread hnext, stepFor_wrapping, hnext]
      exact ih (by omega) next.context

/-- Checking the count makes no difference unless it overflows, which takes a count and an input
that are too long together. -/
theorem runFor_checked (rounds : Nat) (i : Interpreter) (input : Input) (ctx : Context σ κ) :
    runFor .checked rounds i input ctx = runFor .wrapping rounds i input ctx ∨
      runFor .checked rounds i input ctx = .error .overflow ∧
        UInt64.size ≤ i.skipped.skipped.toNat + input.length := by
  induction rounds generalizing i input ctx with
  | zero => exact .inl rfl
  | succ rounds ih =>
    match hread : input.read with
    | (none, rest) =>
      left
      simp only [runFor, hread]
    | (some c, rest) =>
      have hslot := Input.slot_of_read hread
      have hlength := Input.length_read hread
      obtain ⟨next, hnext⟩ := i.step_ok c hslot ctx
      have hwrapping : i.stepFor .wrapping c rest ctx = .ok next := by
        rw [stepFor_wrapping, hnext]
        rfl
      simp only [runFor, hread, hwrapping]
      rcases i.stepFor_checked c ctx rest with hsame | ⟨hfails, hlong⟩
      · rw [hsame, hwrapping]
        have hle := skipped_step_le hslot hnext
        refine (ih next.interpreter next.input next.context).imp_right ?_
        rintro ⟨hrest, hlong⟩
        exact ⟨hrest, by omega⟩
      · rw [hfails]
        exact .inr ⟨rfl, by omega⟩

/-- An interpreter that comes to the end has read everything in the input. -/
theorem input_eq_empty_of_runFor {counting : Counting} {rounds : Nat} {i : Interpreter}
    {input : Input} {ctx : Context σ κ} {d : Delivery σ κ}
    (h : runFor counting rounds i input ctx = .ok d) : d.input = .empty := by
  induction rounds generalizing i input ctx with
  | zero => cases h
  | succ rounds ih =>
    rw [runFor] at h
    split at h
    · rename_i rest hread
      cases h
      exact Input.eq_empty_of_read hread
    · rename_i c rest hread
      simp only [bind, Except.bind] at h
      split at h
      · cases h
      · exact ih h

/-- Whatever an interpreter has in progress, whatever is in the input, a character pushed back
included, and whatever the host: the loop over the input ends; no character is pushed back while
another one waits to be read again, as that would be a failure; and the input is empty at last. A
count of the characters skipped that is checked for overflow changes nothing of this, but that the
interpreter stops where the count overflows; it begins then with a count and an input that are too
long together for a machine word. The loops of commands and of skipped strings end as well, wherever
they are begun. -/
theorem run_terminates (i : Interpreter) (input : Input) (ctx : Context σ κ) :
    (∃ d, i.run input ctx = .ok d ∧ d.input = .empty ∧
      runFor .wrapping (i.work input + 1) i input ctx = .ok d ∧
      (runFor .checked (i.work input + 1) i input ctx = .ok d ∨
        runFor .checked (i.work input + 1) i input ctx = .error .overflow ∧
          UInt64.size ≤ i.skipped.skipped.toNat + input.length)) ∧
    ∀ (counting : Counting) (c : Char) (rest : Input),
      i.command.processFor (rest.length + 1) c rest ctx ≠ .error .outOfRounds ∧
        i.skipped.processFor counting (rest.length + 1) c rest ctx ≠ .error .outOfRounds := by
  obtain ⟨d, hd⟩ := i.run_ok input ctx
  have hwrapping := runFor_wrapping (Nat.lt_succ_self (i.work input)) ctx
  rw [hd] at hwrapping
  have hchecked := runFor_checked (i.work input + 1) i input ctx
  rw [hwrapping] at hchecked
  refine ⟨⟨d, hd, input_eq_empty_of_runFor hwrapping, hwrapping, hchecked⟩, ?_⟩
  intro counting c rest
  refine ⟨?_, i.skipped.processFor_ne_outOfRounds counting c rest ctx⟩
  rw [i.command.processFor_eq]
  exact Failure.mapError_ofSlot_ne _

end Interpreter

end ControlStream
