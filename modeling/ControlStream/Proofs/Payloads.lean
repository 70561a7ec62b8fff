import ControlStream.Proofs.Framing

/-!
# Payloads, character by character

The payload of a string is its longest beginning without BEL, ST and ESC. What stands behind it says
whether the string has ended and what interrupted it. At every moment a payload that is being
collected shows just this of the characters that it was fed, up to its limit: the limit never hides
the end of the string, and nothing that follows the end is seen.

## Main definitions

* `payloadOf`, `endOf`: a string up to the end of its payload, and from there on.
* `openLength`: the number of characters that leave a string open.
* `interruptOf?`: the character that interrupts a string.
* `Payload.Fresh`: payloads that nothing was fed to.
* `Payload.feedAll`, `Payload.reports`: feed characters one by one, and the answers to that.

## Main statements

* `Payload.feedAll_empty`: what was fed decides what is there.
* `Payload.consume_of_collecting`: exactly the characters up to the end of the string are consumed.
* `Payload.Fresh.accumulates`: what is seen of a payload at any time.
-/

namespace ControlStream

open ControlChar

/-! ### The parts of a string -/

/-- The character belongs to the payload wherever it stands in it. -/
def isPayloadChar (c : Char) : Bool := c ≠ bel && c ≠ st && c ≠ esc

/-- The longest beginning without BEL, ST and ESC. -/
def payloadOf (s : List Char) : List Char := s.takeWhile isPayloadChar

def endOf (s : List Char) : List Char := s.dropWhile isPayloadChar

/-- The number of characters that leave the string open: BEL and ST end it at once, ESC together
with the character after it. -/
def openLength (s : List Char) : Nat :=
  (payloadOf s).length + if (endOf s).head? = some esc then 1 else 0

/-- The character after the ESC that ends the payload, other than a backslash. -/
def interruptOf? (s : List Char) : Option Char :=
  match endOf s with
  | c :: d :: _ => if c = esc ∧ d ≠ '\\' then some d else none
  | _ => none

section Parts

variable {c : Char} {s t : List Char}

theorem isPayloadChar_iff : isPayloadChar c = true ↔ c ≠ bel ∧ c ≠ st ∧ c ≠ esc := by
  simp [isPayloadChar, and_assoc]

theorem isPayloadChar_eq_false_iff : isPayloadChar c = false ↔ (c = bel ∨ c = st) ∨ c = esc := by
  rw [← Bool.not_eq_true, isPayloadChar_iff]
  grind

/-- Every character belongs to the payload, ends it, or starts its end. -/
theorem plain_or_terminator_or_esc (c : Char) :
    (c ≠ bel ∧ c ≠ st ∧ c ≠ esc) ∨ (c = bel ∨ c = st) ∨ c = esc := by
  cases hc : isPayloadChar c with
  | true => exact .inl (isPayloadChar_iff.mp hc)
  | false => exact .inr (isPayloadChar_eq_false_iff.mp hc)

theorem payloadOf_append_endOf (s : List Char) : payloadOf s ++ endOf s = s :=
  List.takeWhile_append_dropWhile

theorem isPayload_payloadOf (s : List Char) : IsPayload (payloadOf s) := by
  intro c hc
  have hall : (s.takeWhile isPayloadChar).all isPayloadChar = true := List.all_takeWhile
  exact isPayloadChar_iff.mp (List.all_eq_true.mp hall c hc)

theorem payloadOf_take (n : Nat) : payloadOf (s.take n) = (payloadOf s).take n :=
  List.take_takeWhile.symm

theorem endOf_eq_cons (h : endOf s = c :: t) : (c = bel ∨ c = st) ∨ c = esc := by
  have hne : s.dropWhile isPayloadChar ≠ [] := by simp [← endOf.eq_def, h]
  have hhead := List.head_dropWhile_not isPayloadChar hne
  simp only [← endOf.eq_def, h, List.head_cons] at hhead
  exact isPayloadChar_eq_false_iff.mp hhead

theorem length_payloadOf_add_endOf (s : List Char) :
    s.length = (payloadOf s).length + (endOf s).length := by
  rw [← List.length_append, payloadOf_append_endOf]

theorem payloadOf_cons (h : isPayloadChar c = true) : payloadOf (c :: s) = c :: payloadOf s :=
  List.takeWhile_cons_of_pos h

theorem endOf_cons (h : isPayloadChar c = true) : endOf (c :: s) = endOf s :=
  List.dropWhile_cons_of_pos h

theorem openLength_of_plain (h : c ≠ bel ∧ c ≠ st ∧ c ≠ esc) :
    openLength (c :: s) = openLength s + 1 := by
  have hc := isPayloadChar_iff.mpr h
  rw [openLength, openLength, payloadOf_cons hc, endOf_cons hc, List.length_cons]
  omega

theorem openLength_of_terminator (h : c = bel ∨ c = st) : openLength (c :: s) = 0 := by
  have hc := isPayloadChar_eq_false_iff.mpr (.inl h)
  have hne : c ≠ esc := by rcases h with rfl | rfl <;> decide
  simp [openLength, payloadOf, endOf, hc, hne]

theorem openLength_esc : openLength (esc :: s) = 1 := by
  have hc : isPayloadChar esc = false := isPayloadChar_eq_false_iff.mpr (.inr rfl)
  simp [openLength, payloadOf, endOf, hc]

/-- As many characters of a beginning leave a string open as do of the whole, if it is as long. -/
theorem openLength_of_prefix (s t : List Char) :
    openLength s = min s.length (openLength (s ++ t)) := by
  induction s with
  | nil => simp [openLength, payloadOf, endOf]
  | cons c s ih =>
    rw [List.cons_append]
    rcases plain_or_terminator_or_esc c with hc | hc | rfl
    · rw [openLength_of_plain hc, openLength_of_plain hc, ih, List.length_cons]
      omega
    · rw [openLength_of_terminator hc, openLength_of_terminator hc, Nat.min_zero]
    · rw [openLength_esc, openLength_esc, List.length_cons]
      omega

end Parts

/-! ### Feeding a payload -/

namespace Payload

variable {p : Payload} {limit : Nat} {s : List Char}

/-- Nothing was fed to the payload, or nothing since it was reset. -/
inductive Fresh (limit : Nat) : Payload → Prop
  | new : Fresh limit (empty limit)
  | reset {used : Payload} (hlimit : used.limit = limit) : Fresh limit used.reset

theorem Fresh.eq_empty (h : Fresh limit p) : p = empty limit := by
  cases h with
  | new => rfl
  | reset hlimit => rw [Payload.reset, hlimit]

def feedAll (p : Payload) (s : List Char) : Payload := s.foldl feed p

/-- Feed characters one by one, and say of each whether the string has ended with it. -/
def reports (p : Payload) : List Char → List Bool
  | [] => []
  | c :: s => (p.feed c).isComplete :: (p.feed c).reports s

theorem feedAll_append (p : Payload) (s t : List Char) :
    p.feedAll (s ++ t) = (p.feedAll s).feedAll t := List.foldl_append

theorem limit_feedAll (p : Payload) (s : List Char) : (p.feedAll s).limit = p.limit := by
  induction s generalizing p with
  | nil => rfl
  | cons c s ih => exact (ih (p.feed c)).trans (limit_feed p c)

/-! After the end of the string -/

theorem feedAll_of_isComplete (h : p.isComplete = true) (s : List Char) : p.feedAll s = p := by
  induction s with
  | nil => rfl
  | cons c s ih => rw [feedAll, List.foldl_cons, feed_of_isComplete h c, ← feedAll, ih]

theorem reports_of_isComplete (h : p.isComplete = true) (s : List Char) :
    p.reports s = List.replicate s.length true := by
  induction s with
  | nil => rfl
  | cons c s ih =>
    rw [reports, feed_of_isComplete h c, ih, h, List.length_cons, List.replicate_succ]

/-! Up to the end of the string -/

theorem feedAll_of_isPayload (h : p.stage = .collecting) (hs : IsPayload s) :
    p.feedAll s = p.keepAll s := by
  induction s generalizing p with
  | nil => rfl
  | cons c s ih =>
    rw [IsPayload, List.forall_mem_cons] at hs
    rw [feedAll, keepAll, List.foldl_cons, List.foldl_cons, feed_of_plain h hs.1]
    exact ih ((stage_keep p c).trans h) hs.2

/-- Up to the limit everything is kept, and nothing beyond it. -/
theorem keepAll_empty (limit : Nat) (body : List Char) :
    (empty limit).keepAll body = ⟨(body.take limit).toArray, min limit body.length, limit,
      false, false, none, decide (limit < body.length)⟩ := by
  induction body using List.reverseRecOn with
  | nil => simp [keepAll, empty]
  | append_singleton body c ih =>
    rw [keepAll_concat, ih, keep, List.length_append, List.length_singleton]
    by_cases hroom : body.length < limit
    · have htake : (body ++ [c]).take limit = body.take limit ++ [c] := by
        rw [List.take_of_length_le (by simp; omega), List.take_of_length_le (by omega)]
      have hmin : min limit body.length < limit := by omega
      simp only [if_pos hmin, htake]
      simp
      omega
    · have htake : (body ++ [c]).take limit = body.take limit :=
        List.take_append_of_le_length (by omega)
      have hmin : ¬ min limit body.length < limit := by omega
      simp only [if_neg hmin, htake]
      simp
      omega

/-- What is there of a payload is decided by the characters that were fed: as much of their payload
as there is room for, and what is known of the end of the string. -/
theorem feedAll_empty (limit : Nat) (s : List Char) :
    (empty limit).feedAll s = ⟨((payloadOf s).take limit).toArray, min limit (payloadOf s).length,
      limit, decide (openLength s < s.length), decide (endOf s = [esc]), interruptOf? s,
      decide (limit < (payloadOf s).length)⟩ := by
  have hopen : openLength s < s.length ↔
      (if (endOf s).head? = some esc then 1 else 0) < (endOf s).length := by
    rw [openLength, length_payloadOf_add_endOf s, Nat.add_lt_add_iff_left]
  have hfeed : (empty limit).feedAll s =
      ((empty limit).keepAll (payloadOf s)).feedAll (endOf s) := by
    rw [← feedAll_of_isPayload rfl (isPayload_payloadOf s), ← feedAll_append,
      payloadOf_append_endOf]
  simp only [hfeed, keepAll_empty, hopen, interruptOf?]
  match hend : endOf s with
  | [] => rfl
  | c :: rest =>
    rw [feedAll, List.foldl_cons, ← feedAll]
    rcases endOf_eq_cons hend with hc | rfl
    · have hne : c ≠ esc := by rcases hc with rfl | rfl <;> decide
      rw [feed_of_terminator rfl hc, feedAll_of_isComplete rfl]
      cases rest <;> simp [hne]
    · rw [feed_esc rfl]
      cases rest with
      | nil => rfl
      | cons d rest =>
        rw [feedAll, List.foldl_cons, ← feedAll, feed_of_escaped rfl, feedAll_of_isComplete rfl]
        by_cases hd : d = '\\' <;> simp [hd]

/-! The answers -/

/-- The characters that leave the string open are answered with no, and all others with yes. -/
theorem reports_of_collecting (h : p.stage = .collecting) (s : List Char) :
    p.reports s = List.replicate (openLength s) false ++
      List.replicate (s.length - openLength s) true := by
  induction s generalizing p with
  | nil => rfl
  | cons c s ih =>
    rw [reports]
    rcases plain_or_terminator_or_esc c with hc | hc | rfl
    · have hnext := stage_feed_of_plain h hc
      rw [ih hnext, openLength_of_plain hc, isComplete_eq_false (by simp [hnext]), List.length_cons,
        List.replicate_succ, List.cons_append, Nat.add_sub_add_right]
    · have hended : (p.feed c).isComplete = true := by rw [feed_of_terminator h hc]
      rw [openLength_of_terminator hc, hended, reports_of_isComplete hended]
      rfl
    · have hescaped := stage_feed_esc h
      rw [openLength_esc, isComplete_eq_false (by simp [hescaped])]
      cases s with
      | nil => rfl
      | cons d s =>
        have hended : ((p.feed esc).feed d).isComplete = true := by
          rw [feed_of_escaped hescaped]
        rw [reports, hended, reports_of_isComplete hended]
        rfl

/-- Characters are consumed up to the first that is answered with yes. -/
theorem consume_eq (p : Payload) (s : List Char) :
    let count := ((p.reports s).takeWhile (!·)).length + 1
    p.consume s = (p.feedAll (s.take count), s.drop count) := by
  induction s generalizing p with
  | nil => rfl
  | cons c s ih =>
    rw [consume, reports]
    cases hended : (p.feed c).isComplete with
    | true => rfl
    | false => exact ih (p.feed c)

/-- The characters that leave the string open are consumed, and the one that ends it. -/
theorem consume_of_collecting (h : p.stage = .collecting) (s : List Char) :
    p.consume s = (p.feedAll (s.take (openLength s + 1)), s.drop (openLength s + 1)) := by
  have hfirst : ((p.reports s).takeWhile (!·)).length = openLength s := by
    rw [reports_of_collecting h, List.takeWhile_append_of_pos (by simp)]
    simp
  rw [consume_eq, hfirst]

theorem isComplete_feedAll_empty (limit : Nat) (s : List Char) :
    ((empty limit).feedAll s).isComplete = true ↔ openLength s < s.length := by
  simp [feedAll_empty]

/-- A character that interrupts the string is not there before the string has ended. -/
theorem interrupt_feedAll_empty_of_open
    (h : ((empty limit).feedAll s).isComplete = false) :
    ((empty limit).feedAll s).interrupt = none := by
  have hopen : ¬ openLength s < s.length := by
    rw [← isComplete_feedAll_empty limit, h]
    simp
  rw [openLength, length_payloadOf_add_endOf s, Nat.add_lt_add_iff_left] at hopen
  simp only [feedAll_empty, interruptOf?]
  match hend : endOf s with
  | [] => rfl
  | [c] => rfl
  | c :: d :: rest =>
    rw [hend] at hopen
    split at hopen <;> simp at hopen

/-! ### At every moment -/

/-- What is seen of a payload while the characters of `s` are fed to it. Each is answered with
whether the string has ended, and no more of them are consumed than up to its end. Once the
characters `fed` have arrived, those before BEL, ST and ESC are there as far as there is room, and
only these count for the limit; the character that interrupts the string is there once it has
arrived. What arrives after the end changes nothing, and after a reset only the limit is left. -/
theorem Fresh.accumulates (h : Fresh limit p) (s : List Char) :
    p.reports s = List.replicate (openLength s) false ++
        List.replicate (s.length - openLength s) true ∧
      p.consume s = (p.feedAll (s.take (openLength s + 1)), s.drop (openLength s + 1)) ∧
      ∀ fed more, s = fed ++ more →
        let q := p.feedAll fed
        let arrived := min fed.length (payloadOf s).length
        q.chars = (payloadOf s).take (min limit arrived) ∧
          q.length = min limit arrived ∧
          (q.overflowed = true ↔ limit < arrived) ∧
          (q.isComplete = true ↔ openLength s < fed.length) ∧
          q.interrupt = (if openLength s < fed.length then interruptOf? s else none) ∧
          (openLength s < fed.length → p.feedAll s = q) ∧
          q.reset = empty limit := by
  obtain rfl := h.eq_empty
  refine ⟨reports_of_collecting rfl s, consume_of_collecting rfl s, ?_⟩
  rintro fed more rfl q arrived
  have hpayload : payloadOf fed = (payloadOf (fed ++ more)).take fed.length := by
    rw [← payloadOf_take, List.take_left]
  have harrived : (payloadOf fed).length = arrived := by rw [hpayload, List.length_take]
  have hcomplete : q.isComplete = true ↔ openLength (fed ++ more) < fed.length := by
    rw [isComplete_feedAll_empty, openLength_of_prefix fed more]
    omega
  have hfrozen (hended : openLength (fed ++ more) < fed.length) :
      (empty limit).feedAll (fed ++ more) = q := by
    rw [feedAll_append, feedAll_of_isComplete (hcomplete.mpr hended)]
  refine ⟨?_, ?_, ?_, hcomplete, ?_, hfrozen, ?_⟩
  · have hchars : q.chars = (payloadOf fed).take limit := by
      simp only [q, feedAll_empty, chars]
    rw [hchars, hpayload, List.take_take, List.take_eq_take_iff]
    omega
  · simp only [q, feedAll_empty, harrived]
  · simp only [q, feedAll_empty, harrived, decide_eq_true_eq]
  · split
    · rename_i hended
      rw [← hfrozen hended, feedAll_empty]
    · rename_i hopen
      exact interrupt_feedAll_empty_of_open (Bool.eq_false_iff.mpr (hopen ∘ hcomplete.mp))
  · rw [Payload.reset, limit_feedAll]
    rfl

/-- A payload that is used again, and overflows before a control sequence interrupts it. -/
theorem accumulates_interrupted :
    let p := ((empty 4).feedAll ['x', bel]).reset
    let s := "0;abcdef\x1b[h".toList
    Fresh 4 p ∧ p.reports s = List.replicate 9 false ++ [true, true] ∧
      (p.consume s).2 = ['h'] ∧ (p.feedAll s).chars = "0;ab".toList ∧
      (p.feedAll s).overflowed = true ∧ (p.feedAll s).interrupt = some '[' := by
  intro p s
  have hfresh : Fresh 4 p := .reset rfl
  obtain ⟨hreports, hconsume, hmoments⟩ := hfresh.accumulates s
  obtain ⟨hchars, -, hoverflowed, -, hinterrupt, -, -⟩ := hmoments s [] (List.append_nil s).symm
  refine ⟨hfresh, hreports, ?_, hchars, hoverflowed.mpr (by decide), hinterrupt⟩
  rw [hconsume]
  rfl

end Payload

end ControlStream
