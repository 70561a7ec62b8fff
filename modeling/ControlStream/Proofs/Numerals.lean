import ControlStream.Text.Numeral

/-!
# The texts that are numerals

A numeral is a row of digits, at least one, and a plus sign may stand in front of it. Exactly the
numerals are read, as the numbers that their digits stand for, as long as these are not too large.

## Main definitions

* `digitsValue`: the number that a row of digits stands for.
* `IsNumeral`: the numerals of a number, with or without plus signs allowed.
* `IsNumber`: decimal numerals, with a plus sign in front or not.

## Main statements

* `parseNat?_eq_some_iff`, `parseHex?_eq_some_iff`: what is read as a number.
* `IsNumeral.of_not_mem`: without plus signs nothing but digits is left.
-/

namespace ControlStream

/-- The number that digits stand for after digits of value `value`. -/
def digitsValue (digit? : Char → Option Nat) (base value : Nat) (s : List Char) : Nat :=
  s.foldl (fun value c => value * base + (digit? c).getD 0) value

/-- The text is a numeral of a number, and a plus sign may stand in front of the digits if `plus`
holds. -/
inductive IsNumeral (digit? : Char → Option Nat) (base : Nat) (plus : Bool) : List Char → Nat → Prop
  | digits {s : List Char} (hne : s ≠ []) (hdigits : ∀ c ∈ s, (digit? c).isSome = true) :
    IsNumeral digit? base plus s (digitsValue digit? base 0 s)
  | signed {s : List Char} (hplus : plus = true) (hne : s ≠ [])
      (hdigits : ∀ c ∈ s, (digit? c).isSome = true) :
    IsNumeral digit? base plus ('+' :: s) (digitsValue digit? base 0 s)

section Reading

variable {digit? : Char → Option Nat} {base bound value n : Nat} {s : List Char}

theorem IsNumeral.ne_nil {plus : Bool} (h : IsNumeral digit? base plus s n) : s ≠ [] := by
  cases h with
  | digits hne => exact hne
  | signed => exact List.cons_ne_nil _ _

theorem IsNumeral.length_pos {plus : Bool} (h : IsNumeral digit? base plus s n) : 1 ≤ s.length :=
  List.length_pos_iff.mpr h.ne_nil

/-- Without a plus sign a numeral is nothing but digits, whether or not the sign is allowed. -/
theorem IsNumeral.of_not_mem {plus : Bool} (h : IsNumeral digit? base plus s n) (hs : '+' ∉ s)
    (other : Bool) : IsNumeral digit? base other s n := by
  cases h with
  | digits hne hdigits => exact .digits hne hdigits
  | signed => exact absurd List.mem_cons_self hs

/-- Where plus signs are not allowed there are none. -/
theorem IsNumeral.plus_not_mem (h : IsNumeral digit? base false s n) (hplus : digit? '+' = none) :
    '+' ∉ s := by
  intro hmem
  cases h with
  | digits _ hdigits => simpa [hplus] using hdigits _ hmem
  | signed hsign => cases hsign

/-- There are no other characters in a numeral than plus signs and digits. -/
theorem IsNumeral.not_mem {plus : Bool} (h : IsNumeral digit? base plus s n) {c : Char}
    (hc : c ≠ '+') (hdigit : digit? c = none) : c ∉ s := by
  intro hmem
  have hnot : (digit? c).isSome ≠ true := by simp [hdigit]
  cases h with
  | digits _ hdigits => exact hnot (hdigits c hmem)
  | signed _ _ hdigits =>
    rcases List.mem_cons.mp hmem with heq | hmem
    · exact hc heq
    · exact hnot (hdigits c hmem)

/-- More digits make no number smaller. -/
theorem le_digitsValue (hbase : 0 < base) (s : List Char) :
    value ≤ digitsValue digit? base value s := by
  induction s generalizing value with
  | nil => exact Nat.le_refl value
  | cons c s ih =>
    have hstep : value ≤ value * base + (digit? c).getD 0 :=
      Nat.le_trans (Nat.le_mul_of_pos_right value hbase) (Nat.le_add_right _ _)
    exact Nat.le_trans hstep ih

/-- Digits multiply a number by a power of the base at most. -/
theorem digitsValue_lt (hdigit : ∀ c, (digit? c).getD 0 < base) {next : Nat} (hvalue : value < next)
    (s : List Char) : digitsValue digit? base value s < next * Nat.pow base s.length := by
  induction s generalizing value next with
  | nil => rwa [List.length_nil, Nat.pow_eq, Nat.pow_zero, Nat.mul_one]
  | cons c s ih =>
    have hstep : value * base + (digit? c).getD 0 < next * base := by
      have hc := hdigit c
      calc value * base + (digit? c).getD 0 < (value + 1) * base := by rw [Nat.succ_mul]; omega
        _ ≤ next * base := Nat.mul_le_mul_right base hvalue
    refine Nat.lt_of_lt_of_eq (ih hstep) ?_
    rw [List.length_cons, Nat.mul_assoc, Nat.pow_eq, Nat.pow_eq, Nat.pow_succ']

/-- Exactly the rows of digits are read whose value is within the bound. -/
theorem parseDigits?_eq_some_iff (hbase : 0 < base) (hvalue : value ≤ bound) :
    parseDigits? digit? base bound value s = some n ↔
      (∀ c ∈ s, (digit? c).isSome = true) ∧ digitsValue digit? base value s = n ∧ n ≤ bound := by
  induction s generalizing value with
  | nil =>
    simp only [parseDigits?, digitsValue, List.foldl_nil, Option.some.injEq]
    constructor
    · rintro rfl
      exact ⟨by simp, rfl, hvalue⟩
    · rintro ⟨-, h, -⟩
      exact h
  | cons c s ih =>
    rw [parseDigits?, List.forall_mem_cons, digitsValue, List.foldl_cons, ← digitsValue]
    cases hdigit : digit? c with
    | none => simp
    | some d =>
      simp only [Option.isSome_some, true_and, Option.getD_some]
      by_cases hbound : value * base + d ≤ bound
      · rw [if_pos hbound]
        exact ih hbound
      · rw [if_neg hbound]
        have hle : value * base + d ≤ digitsValue digit? base (value * base + d) s :=
          le_digitsValue hbase s
        simp only [reduceCtorEq, false_iff, not_and]
        omega

theorem dropPlus_cases (s : List Char) : dropPlus s = s ∨ ∃ t, s = '+' :: t ∧ dropPlus s = t := by
  unfold dropPlus
  split
  · exact .inr ⟨_, rfl, rfl⟩
  · exact .inl rfl

/-- Exactly the numerals are read whose value is within the bound. -/
theorem parseDigits?_dropPlus_eq_some_iff (hbase : 0 < base) (hplus : digit? '+' = none) :
    dropPlus s ≠ [] ∧ parseDigits? digit? base bound 0 (dropPlus s) = some n ↔
      IsNumeral digit? base true s n ∧ n ≤ bound := by
  rw [parseDigits?_eq_some_iff hbase (Nat.zero_le bound)]
  constructor
  · rintro ⟨hne, hdigits, rfl, hbound⟩
    refine ⟨?_, hbound⟩
    rcases dropPlus_cases s with hsame | ⟨t, rfl, hrest⟩
    · rw [hsame] at hne hdigits ⊢
      exact .digits hne hdigits
    · rw [hrest] at hne hdigits ⊢
      exact .signed rfl hne hdigits
  · rintro ⟨hnumeral, hbound⟩
    cases hnumeral with
    | digits hne hdigits =>
      have hdrop : dropPlus s = s := by
        cases s with
        | nil => rfl
        | cons c s =>
          refine dropPlus_of_ne ?_ s
          rintro rfl
          simpa [hplus] using hdigits _ List.mem_cons_self
      rw [hdrop]
      exact ⟨hne, hdigits, rfl, hbound⟩
    | signed _ hne hdigits => exact ⟨hne, hdigits, rfl, hbound⟩

end Reading

/-! ### Digits -/

def decimalDigit? (c : Char) : Option Nat := "0123456789".toList.idxOf? c

def hexDigit? (c : Char) : Option Nat :=
  ("0123456789abcdef".toList.idxOf? c).or ("0123456789ABCDEF".toList.idxOf? c)

/-- Functions that are the same for ASCII characters and have no value for others are the same. -/
theorem eq_of_ascii {f g : Char → Option Nat} (hascii : ∀ n < 128, f (.ofNat n) = g (.ofNat n))
    (hf : ∀ c : Char, 128 ≤ c.toNat → f c = none) (hg : ∀ c : Char, 128 ≤ c.toNat → g c = none) :
    f = g := by
  funext c
  rcases Nat.lt_or_ge c.toNat 128 with hc | hc
  · have hsame := hascii c.toNat hc
    rwa [Char.ofNat_toNat] at hsame
  · rw [hf c hc, hg c hc]

theorem idxOf?_of_not_ascii {digits : List Char} (hdigits : digits.all (·.toNat < 128) = true)
    {c : Char} (hc : 128 ≤ c.toNat) : digits.idxOf? c = none := by
  rw [List.idxOf?_eq_none_iff]
  intro hmem
  have hlt := List.all_eq_true.mp hdigits c hmem
  rw [decide_eq_true_eq] at hlt
  omega

theorem digitValue?_eq_decimalDigit? : digitValue? = decimalDigit? := by
  refine eq_of_ascii (by decide) ?_ ?_
  · intro c hc
    have hout : isDecimal c = false := by
      rw [← Bool.not_eq_true, isDecimal, inRange_iff]
      omega
    rw [digitValue?, hout, if_neg Bool.false_ne_true]
  · intro c hc
    exact idxOf?_of_not_ascii rfl hc

theorem hexValue?_eq_hexDigit? : hexValue? = hexDigit? := by
  refine eq_of_ascii (by decide) ?_ ?_
  · intro c hc
    have hout (low high : Nat) (hhigh : high < 128) : ¬ inRange low high c = true := by
      rw [inRange_iff]
      omega
    rw [hexValue?, if_neg (hout _ _ (by decide)), if_neg (hout _ _ (by decide)),
      if_neg (hout _ _ (by decide))]
  · intro c hc
    rw [hexDigit?, idxOf?_of_not_ascii rfl hc, idxOf?_of_not_ascii rfl hc]
    rfl

/-! ### Numbers in a text -/

/-- Exactly the decimal numerals of numbers within the bound are read. -/
theorem parseNat?_eq_some_iff {bound n : Nat} {s : List Char} :
    parseNat? bound s = some n ↔ IsNumeral decimalDigit? 10 true s n ∧ n ≤ bound := by
  rw [← parseDigits?_dropPlus_eq_some_iff (by decide) (by decide), parseNat?,
    digitValue?_eq_decimalDigit?]
  cases dropPlus s <;> simp

/-- Exactly the hexadecimal numerals of numbers within the bound are read. -/
theorem parseHex?_eq_some_iff {bound n : Nat} {s : List Char} :
    parseHex? bound s = some n ↔ IsNumeral hexDigit? 16 true s n ∧ n ≤ bound := by
  rw [← parseDigits?_dropPlus_eq_some_iff (by decide) (by decide), parseHex?,
    hexValue?_eq_hexDigit?]
  cases dropPlus s <;> simp

/-! ### Decimal numerals -/

theorem isSome_decimalDigit? (c : Char) : (decimalDigit? c).isSome = isDecimal c := by
  rw [← digitValue?_eq_decimalDigit?, digitValue?]
  cases isDecimal c <;> rfl

/-- The value of decimal digits is that of the library. -/
theorem digitsValue_decimalDigit? {s : List Char} (hs : ∀ c ∈ s, isDecimal c = true) (value : Nat) :
    digitsValue decimalDigit? 10 value s = Nat.ofDigitChars 10 s value := by
  induction s generalizing value with
  | nil => rfl
  | cons c s ih =>
    rw [List.forall_mem_cons] at hs
    have hdigit : decimalDigit? c = some (c.toNat - '0'.toNat) := by
      rw [← digitValue?_eq_decimalDigit?, digitValue?, if_pos hs.1]
      rfl
    rw [digitsValue, List.foldl_cons, ← digitsValue, hdigit, Option.getD_some, ih hs.2,
      Nat.ofDigitChars_cons, Nat.mul_comm]

/-- A decimal numeral, with or without zeros in front, is read as the number it stands for. -/
theorem parseNat?_of_isDecimal {s : List Char} {bound : Nat} (hne : s ≠ [])
    (hs : ∀ c ∈ s, isDecimal c = true) (hbound : Nat.ofDigitChars 10 s 0 ≤ bound) :
    parseNat? bound s = some (Nat.ofDigitChars 10 s 0) := by
  rw [← digitsValue_decimalDigit? hs] at hbound ⊢
  refine parseNat?_eq_some_iff.mpr ⟨.digits hne fun c hc => ?_, hbound⟩
  rw [isSome_decimalDigit?, hs c hc]

/-- A number is read from its decimal digits. -/
theorem parseNat?_toDigits {n bound : Nat} (h : n ≤ bound) :
    parseNat? bound (Nat.toDigits 10 n) = some n := by
  have hvalue : Nat.ofDigitChars 10 (Nat.toDigits 10 n) 0 = n := Nat.ofDigitChars_ten_toDigits
  have hread : parseNat? bound (Nat.toDigits 10 n) =
      some (Nat.ofDigitChars 10 (Nat.toDigits 10 n) 0) :=
    parseNat?_of_isDecimal Nat.toDigits_ne_nil (fun _ => isDecimal_of_mem_toDigits)
      (hvalue.symm ▸ h)
  rwa [hvalue] at hread

/-- Decimal digits that stand for a number. A plus sign in front of them is passed over. -/
def IsNumber (s : List Char) (n : Nat) : Prop :=
  IsNumeral decimalDigit? 10 false s n ∨ ∃ t, s = '+' :: t ∧ IsNumeral decimalDigit? 10 false t n

theorem isNumber_iff {s : List Char} {n : Nat} :
    IsNumber s n ↔ IsNumeral decimalDigit? 10 true s n := by
  constructor
  · rintro (hs | ⟨t, rfl, ht⟩)
    · exact hs.of_not_mem (hs.plus_not_mem (by decide)) true
    · cases ht with
      | digits hne hdigits => exact .signed rfl hne hdigits
      | signed hplus => cases hplus
  · intro hs
    cases hs with
    | digits hne hdigits => exact .inl (.digits hne hdigits)
    | signed _ hne hdigits => exact .inr ⟨_, rfl, .digits hne hdigits⟩

/-! ### Hexadecimal numerals -/

theorem getD_hexDigit?_lt (c : Char) : (hexDigit? c).getD 0 < 16 := by
  rw [← hexValue?_eq_hexDigit?, hexValue?]
  simp only [inRange_iff]
  split
  · rw [Option.getD_some]
    omega
  · split
    · rw [Option.getD_some]
      omega
    · split
      · rw [Option.getD_some]
        omega
      · decide

/-- A hexadecimal numeral is less than the power of 16 of its length. -/
theorem IsNumeral.lt_pow {plus : Bool} {s : List Char} {n : Nat}
    (h : IsNumeral hexDigit? 16 plus s n) : n < Nat.pow 16 s.length := by
  have hdigits (s : List Char) : digitsValue hexDigit? 16 0 s < Nat.pow 16 s.length := by
    have hlt := digitsValue_lt getD_hexDigit?_lt Nat.one_pos s
    rwa [Nat.one_mul] at hlt
  cases h with
  | digits => exact hdigits _
  | @signed s =>
    refine Nat.lt_of_lt_of_le (hdigits s) ?_
    exact Nat.pow_le_pow_right (by decide) (by simp)

end ControlStream
