import ControlStream.Base64
import ControlStream.Text.Utf8

/-!
# Encodings read back

What is written as UTF-8 is read as the same text. What is written in base64 is read as the same
bytes, whether its padding is complete or not. Whatever is read, it is never more than its length
allows.

## Main definitions

* `Base64.text`: some bytes in base64, as characters.
* `Base64.Spells`: the same with less padding, or none.

## Main statements

* `decodeUtf8Lossy_encodeUtf8`: UTF-8 reads back.
* `Base64.Spells.decode_eq`: base64 reads back with less padding, or none.
* `length_decodeUtf8Lossy_le`, `Base64.length_decode_le`: bounds on what is read.
-/

namespace ControlStream

/-! ### UTF-8 -/

section Utf8

theorem utf8Lead?_of_two {q : Nat} (hlow : 2 ≤ q) (hhigh : q < 32) :
    utf8Lead? (q + 192) = some ⟨q, 0x80, 0xBF, 1⟩ := by
  rw [utf8Lead?, if_pos (by omega), Nat.add_sub_cancel]

/-- The second byte may not spell an overlong form or a surrogate. -/
theorem utf8Lead?_of_three {q : Nat} (h : q < 16) :
    utf8Lead? (q + 224) =
      some ⟨q, if q = 0 then 0xA0 else 0x80, if q = 13 then 0x9F else 0xBF, 2⟩ := by
  by_cases hzero : q = 0
  · subst hzero
    rfl
  · by_cases hsurrogates : q = 13
    · subst hsurrogates
      rfl
    · rw [utf8Lead?, if_neg (by omega), if_neg (by omega), if_neg (by omega), if_pos (by omega),
        if_neg hzero, if_neg hsurrogates, Nat.add_sub_cancel]

/-- The second byte may not spell an overlong form or a number above the last code point. -/
theorem utf8Lead?_of_four {q : Nat} (h : q < 5) :
    utf8Lead? (q + 240) =
      some ⟨q, if q = 0 then 0x90 else 0x80, if q = 4 then 0x8F else 0xBF, 3⟩ := by
  match q, h with
  | 0, _ => rfl
  | 1, _ => rfl
  | 2, _ => rfl
  | 3, _ => rfl
  | 4, _ => rfl

theorem readScalar_of_lead {b : UInt8} (hb : 0x80 ≤ b.toNat) {first low high n v : Nat}
    (hlead : utf8Lead? b.toNat = some ⟨first, low, high, n⟩) {bytes rest : List UInt8}
    (hread : readFollowing low high first n bytes = (some v, rest)) :
    readScalar b bytes = (some (Char.ofNat v), rest) := by
  have hascii : ¬ b.toNat < 0x80 := by omega
  simp only [readScalar, if_neg hascii, hlead, hread, Option.map_some]

theorem toNat_ofNat_of_lt {n : Nat} (h : n < 256) : (UInt8.ofNat n).toNat = n := by
  rw [UInt8.toNat_ofNat', Nat.mod_eq_of_lt h]

/-- A byte in the range for it adds six bits. -/
theorem readFollowing_cons {d : Nat} (hd : d < 64) {low high : Nat} (hlow : low ≤ d + 128)
    (hhigh : d + 128 ≤ high) (bits n : Nat) (bytes : List UInt8) :
    readFollowing low high bits (n + 1) (UInt8.ofNat (d + 128) :: bytes) =
      readFollowing 0x80 0xBF (bits * 64 + d) n bytes := by
  have hbyte : (UInt8.ofNat (d + 128)).toNat = d + 128 := toNat_ofNat_of_lt (by omega)
  rw [readFollowing, hbyte, if_pos ⟨hlow, hhigh⟩, Nat.add_sub_cancel]

theorem readScalar_of_two {v : Nat} (hlow : 0x80 ≤ v) (hhigh : v ≤ 0x7FF) (rest : List UInt8) :
    readScalar (UInt8.ofNat (v / 64 % 32 + 192)) (UInt8.ofNat (v % 64 + 128) :: rest) =
      (some (Char.ofNat v), rest) := by
  have hfirst : (UInt8.ofNat (v / 64 % 32 + 192)).toNat = v / 64 % 32 + 192 :=
    toNat_ofNat_of_lt (by omega)
  have hlead := utf8Lead?_of_two (q := v / 64 % 32) (by omega) (by omega)
  have hvalue : v / 64 % 32 * 64 + v % 64 = v := by omega
  refine readScalar_of_lead (by omega) (hfirst ▸ hlead) ?_
  rw [readFollowing_cons (by omega) (by omega) (by omega), hvalue, readFollowing]

theorem readScalar_of_three {v : Nat} (hlow : 0x800 ≤ v) (hhigh : v ≤ 0xFFFF)
    (hvalid : v < 0xD800 ∨ 0xDFFF < v) (rest : List UInt8) :
    readScalar (UInt8.ofNat (v / 4096 % 16 + 224))
        (UInt8.ofNat (v / 64 % 64 + 128) :: UInt8.ofNat (v % 64 + 128) :: rest) =
      (some (Char.ofNat v), rest) := by
  have hfirst : (UInt8.ofNat (v / 4096 % 16 + 224)).toNat = v / 4096 % 16 + 224 :=
    toNat_ofNat_of_lt (by omega)
  have hlead := utf8Lead?_of_three (q := v / 4096 % 16) (by omega)
  have hvalue : (v / 4096 % 16 * 64 + v / 64 % 64) * 64 + v % 64 = v := by omega
  refine readScalar_of_lead (by omega) (hfirst ▸ hlead) ?_
  rw [readFollowing_cons (by omega) (by split <;> omega) (by split <;> omega),
    readFollowing_cons (by omega) (by omega) (by omega), hvalue, readFollowing]

theorem readScalar_of_four {v : Nat} (hlow : 0x10000 ≤ v) (hhigh : v < 0x110000)
    (rest : List UInt8) :
    readScalar (UInt8.ofNat (v / 262144 % 8 + 240))
        (UInt8.ofNat (v / 4096 % 64 + 128) :: UInt8.ofNat (v / 64 % 64 + 128) ::
          UInt8.ofNat (v % 64 + 128) :: rest) =
      (some (Char.ofNat v), rest) := by
  have hfirst : (UInt8.ofNat (v / 262144 % 8 + 240)).toNat = v / 262144 % 8 + 240 :=
    toNat_ofNat_of_lt (by omega)
  have hlead := utf8Lead?_of_four (q := v / 262144 % 8) (by omega)
  have hvalue : ((v / 262144 % 8 * 64 + v / 4096 % 64) * 64 + v / 64 % 64) * 64 + v % 64 = v := by
    omega
  refine readScalar_of_lead (by omega) (hfirst ▸ hlead) ?_
  rw [readFollowing_cons (by omega) (by split <;> omega) (by split <;> omega),
    readFollowing_cons (by omega) (by omega) (by omega),
    readFollowing_cons (by omega) (by omega) (by omega), hvalue, readFollowing]

/-- The bytes of a character are read as that character. -/
theorem readScalar_utf8EncodeChar (c : Char) (rest : List UInt8) :
    ∃ b bytes, String.utf8EncodeChar c = b :: bytes ∧
      readScalar b (bytes ++ rest) = (some c, rest) := by
  have hvalid : c.toNat < 0xD800 ∨ 0xDFFF < c.toNat ∧ c.toNat < 0x110000 := c.valid
  have hchar : Char.ofNat c.toNat = c := c.ofNat_toNat
  unfold String.utf8EncodeChar
  simp only [show c.val.toNat = c.toNat from rfl]
  generalize c.toNat = v at hvalid hchar ⊢
  subst hchar
  -- One case for each number of bytes.
  split
  · have hbyte : (UInt8.ofNat v).toNat = v := toNat_ofNat_of_lt (by omega)
    refine ⟨_, [], rfl, ?_⟩
    rw [readScalar, hbyte, if_pos (by omega)]
    rfl
  · split
    · exact ⟨_, _, rfl, readScalar_of_two (by omega) ‹_› rest⟩
    · split
      · exact ⟨_, _, rfl, readScalar_of_three (by omega) ‹_› (hvalid.imp_right And.left) rest⟩
      · exact ⟨_, _, rfl, readScalar_of_four (by omega) (by omega) rest⟩

theorem encodeUtf8_cons (c : Char) (s : List Char) :
    encodeUtf8 (c :: s) = String.utf8EncodeChar c ++ encodeUtf8 s := List.flatMap_cons

theorem scanUtf8Onto_encodeUtf8 (read : List (Option Char)) (s : List Char) :
    scanUtf8Onto read (encodeUtf8 s) = (s.map some).reverse ++ read := by
  induction s generalizing read with
  | nil => rw [encodeUtf8, List.flatMap_nil, scanUtf8Onto]; rfl
  | cons c s ih =>
    obtain ⟨b, bytes, hbytes, hread⟩ := readScalar_utf8EncodeChar c (encodeUtf8 s)
    rw [encodeUtf8_cons, hbytes, List.cons_append, scanUtf8Onto]
    simp only [hread, ih]
    simp

theorem utf8Length_eq (s : List Char) : utf8Length s = (encodeUtf8 s).length := by
  have hfrom : ∀ n, s.foldl (fun n c => n + c.utf8Size) n = n + (encodeUtf8 s).length := by
    induction s with
    | nil => exact fun n => rfl
    | cons c s ih =>
      intro n
      rw [List.foldl_cons, ih, encodeUtf8_cons, List.length_append, String.length_utf8EncodeChar,
        Nat.add_assoc]
  rw [utf8Length, hfrom, Nat.zero_add]

/-- A text is read from its bytes. -/
theorem decodeUtf8Lossy_encodeUtf8 (s : List Char) : decodeUtf8Lossy (encodeUtf8 s) = s := by
  have hread : ((·.getD replacementChar) ∘ some : Char → Char) = id := rfl
  rw [decodeUtf8Lossy, scanUtf8, scanUtf8Onto_encodeUtf8, List.append_nil, List.reverse_reverse,
    List.map_map, hread, List.map_id]

/-- No byte is read as more than one character. -/
theorem length_scanUtf8Onto_le (read : List (Option Char)) (bytes : List UInt8) :
    (scanUtf8Onto read bytes).length ≤ read.length + bytes.length := by
  fun_induction scanUtf8Onto read bytes with
  | case1 read => exact Nat.le_refl _
  | case2 read b bytes next ih =>
    have hrest : next.2.length ≤ bytes.length := length_readScalar_le b bytes
    grind

theorem length_decodeUtf8Lossy_le (bytes : List UInt8) :
    (decodeUtf8Lossy bytes).length ≤ bytes.length := by
  have hscan := length_scanUtf8Onto_le [] bytes
  rw [List.length_nil, Nat.zero_add] at hscan
  rwa [decodeUtf8Lossy, List.length_map, scanUtf8, List.length_reverse]

end Utf8

/-! ### Base64 -/

namespace Base64

def groupValues (a b c : UInt8) : List Nat :=
  let n := (a.toNat * 256 + b.toNat) * 256 + c.toNat
  [n / 262144, n / 4096 % 64, n / 64 % 64, n % 64]

theorem encodeGroup_eq (a b c : UInt8) : encodeGroup a b c = (groupValues a b c).map symbol := rfl

theorem groupValues_lt (a b c : UInt8) : ∀ v ∈ groupValues a b c, v < 64 := by
  have ha := a.toNat_lt
  have hb := b.toNat_lt
  have hc := c.toNat_lt
  simp only [groupValues, List.forall_mem_cons]
  refine ⟨by omega, by omega, by omega, by omega, nofun⟩

theorem bytesOfValues_group {a b c : UInt8} {v₀ v₁ v₂ v₃ : Nat}
    (h : groupValues a b c = [v₀, v₁, v₂, v₃]) : bytesOfValues v₀ v₁ v₂ v₃ = [a, b, c] := by
  simp only [groupValues, List.cons.injEq] at h
  obtain ⟨rfl, rfl, rfl, rfl, -⟩ := h
  have ha := a.toNat_lt
  have hb := b.toNat_lt
  have hc := c.toNat_lt
  simp only [bytesOfValues, List.cons.injEq, and_true, ← UInt8.toNat_inj, UInt8.toNat_ofNat']
  refine ⟨by omega, by omega, by omega⟩

theorem value?_symbol : ∀ v < 64, value? (symbol v) = some v := by decide

theorem symbol_ne_pad {v : Nat} (h : v < 64) : symbol v ≠ pad := by
  intro hpad
  have hvalue := value?_symbol v h
  rw [hpad] at hvalue
  cases hvalue

theorem valueAt_symbol (offset : Nat) {v : Nat} (h : v < 64) :
    valueAt offset (symbol v) = .ok v := by
  rw [valueAt, value?_symbol v h]

theorem decodeGroup_symbols (offset : Nat) {v₀ v₁ v₂ v₃ : Nat}
    (h : ∀ v ∈ [v₀, v₁, v₂, v₃], v < 64) :
    decodeGroup offset (symbol v₀) (symbol v₁) (symbol v₂) (symbol v₃) =
      .ok (bytesOfValues v₀ v₁ v₂ v₃) := by
  simp only [List.forall_mem_cons] at h
  obtain ⟨h₀, h₁, h₂, h₃, -⟩ := h
  rw [decodeGroup, valueAt_symbol _ h₀, valueAt_symbol _ h₁, valueAt_symbol _ h₂,
    valueAt_symbol _ h₃]
  rfl

/-- A group that is not the last stands for three bytes. -/
theorem decodeGroups_group (a b c : UInt8) {rest : List UInt8} (h : rest ≠ []) (offset : Nat)
    (done : List UInt8) :
    decodeGroups offset done (encodeGroup a b c ++ rest) =
      decodeGroups (offset + 4) ([a, b, c].reverse ++ done) rest := by
  obtain ⟨next, rest, rfl⟩ := List.exists_cons_of_ne_nil h
  obtain ⟨v₀, v₁, v₂, v₃, hgroup⟩ : ∃ v₀ v₁ v₂ v₃, groupValues a b c = [v₀, v₁, v₂, v₃] :=
    ⟨_, _, _, _, rfl⟩
  have hvalues := groupValues_lt a b c
  rw [hgroup] at hvalues
  rw [encodeGroup_eq, hgroup]
  simp only [List.map_cons, List.map_nil, List.cons_append, List.nil_append]
  rw [decodeGroups, decodeGroup_symbols offset hvalues, bytesOfValues_group hgroup]

theorem lastSymbols_padding {position : Nat} (h : 2 ≤ position) (offset n : Nat)
    (padding : Option Nat) :
    lastSymbols offset position padding (List.replicate n pad) = .ok [] := by
  induction n generalizing offset position padding with
  | zero => rfl
  | succ n ih =>
    have hroom : ¬ position < 2 := by omega
    simp only [List.replicate_succ, lastSymbols.eq_def _ _ _ (_ :: _), if_true, if_neg hroom]
    exact ih (by omega) _ _

theorem lastSymbols_symbols {values : List Nat} (hvalues : ∀ v ∈ values, v < 64)
    {position : Nat} (h : 2 ≤ position + values.length) (offset n : Nat) :
    lastSymbols offset position none (values.map symbol ++ List.replicate n pad) =
      .ok (values.map fun v => (symbol v, v)) := by
  induction values generalizing offset position with
  | nil => exact lastSymbols_padding h offset n none
  | cons v values ih =>
    rw [List.forall_mem_cons] at hvalues
    rw [List.length_cons] at h
    have hrest := @ih hvalues.2 (position + 1) (by omega) (offset + 1)
    rw [List.map_cons, List.cons_append, lastSymbols, if_neg (symbol_ne_pad hvalues.1)]
    simp only [valueAt_symbol _ hvalues.1, hrest]
    rfl

theorem decodeLast_symbols {values : List Nat} (hvalues : ∀ v ∈ values, v < 64)
    (h : 2 ≤ values.length) (offset n : Nat) :
    decodeLast offset (values.map symbol ++ List.replicate n pad) =
      bytesOfLast offset (values.map fun v => (symbol v, v)) := by
  rw [decodeLast, lastSymbols_symbols hvalues (by omega)]
  rfl

/-- What is left of symbols and padding if padding is taken away. -/
theorem eq_append_padding {values : List Nat} (hvalues : ∀ v ∈ values, v < 64)
    {data : List UInt8} {n k : Nat}
    (h : data ++ List.replicate n pad = values.map symbol ++ List.replicate k pad) :
    ∃ m ≤ k, data = values.map symbol ++ List.replicate m pad := by
  rcases List.append_eq_append_iff.mp h with ⟨rest, hsymbols, hpadding⟩ | ⟨rest, hdata, hpadding⟩
  · have hrest : rest = [] := by
      rw [List.eq_nil_iff_forall_not_mem]
      intro b hb
      have hpad : b = pad := List.eq_of_mem_replicate (hpadding ▸ List.mem_append_left _ hb)
      have hsymbol : b ∈ values.map symbol := hsymbols ▸ List.mem_append_right _ hb
      obtain ⟨v, hv, rfl⟩ := List.mem_map.mp hsymbol
      exact symbol_ne_pad (hvalues v hv) hpad
    subst hrest
    exact ⟨0, Nat.zero_le _, by rw [hsymbols, List.append_nil]; exact (List.append_nil _).symm⟩
  · obtain ⟨hlength, hrest, -⟩ := List.append_eq_replicate_iff.mp hpadding.symm
    exact ⟨rest.length, by omega, by rw [← hrest, hdata]⟩

theorem decodeGroups_of_length_le {bytes group : List UInt8} (h : bytes.length ≤ 4) {offset : Nat}
    (hlast : decodeLast offset bytes = .ok group) (done : List UInt8) :
    decodeGroups offset done bytes = .ok (done.reverse ++ group) := by
  unfold decodeGroups
  split
  · simp only [List.length_cons] at h
    omega
  · rw [hlast]

/-- The last group is read also if padding of it is missing. -/
theorem decodeGroups_last {values : List Nat} (hvalues : ∀ v ∈ values, v < 64)
    (hlow : 2 ≤ values.length) {k : Nat} (hhigh : values.length + k ≤ 4) {data group : List UInt8}
    {n offset : Nat}
    (h : data ++ List.replicate n pad = values.map symbol ++ List.replicate k pad)
    (hlast : bytesOfLast offset (values.map fun v => (symbol v, v)) = .ok group)
    (done : List UInt8) :
    decodeGroups offset done data = .ok (done.reverse ++ group) := by
  obtain ⟨m, hm, rfl⟩ := eq_append_padding hvalues h
  refine decodeGroups_of_length_le ?_ ?_ done
  · rw [List.length_append, List.length_map, List.length_replicate]
    omega
  · rw [decodeLast_symbols hvalues hlow, hlast]

theorem bytesOfLast_one_byte (offset : Nat) (a : UInt8) :
    bytesOfLast offset (((groupValues a 0 0).take 2).map fun v => (symbol v, v)) = .ok [a] := by
  have hgroup : groupValues a 0 0 = [a.toNat / 4, a.toNat % 4 * 16, 0, 0] := by
    simp only [groupValues, List.cons.injEq, UInt8.toNat_zero, and_true]
    exact ⟨by omega, by omega, by omega, by omega⟩
  have hunused : a.toNat % 4 * 16 % 16 = 0 := by omega
  rw [hgroup, List.take_succ_cons, List.take_succ_cons, List.take_zero]
  simp only [List.map_cons, List.map_nil, bytesOfLast, if_pos hunused,
    bytesOfValues_group hgroup]
  rfl

theorem bytesOfLast_two_bytes (offset : Nat) (a b : UInt8) :
    bytesOfLast offset (((groupValues a b 0).take 3).map fun v => (symbol v, v)) = .ok [a, b] := by
  have ha := a.toNat_lt
  have hb := b.toNat_lt
  have hgroup : groupValues a b 0 =
      [a.toNat / 4, a.toNat % 4 * 16 + b.toNat / 16, b.toNat % 16 * 4, 0] := by
    simp only [groupValues, List.cons.injEq, UInt8.toNat_zero, and_true]
    exact ⟨by omega, by omega, by omega, by omega⟩
  have hunused : b.toNat % 16 * 4 % 4 = 0 := by omega
  rw [hgroup, List.take_succ_cons, List.take_succ_cons, List.take_succ_cons, List.take_zero]
  simp only [List.map_cons, List.map_nil, bytesOfLast, if_pos hunused,
    bytesOfValues_group hgroup]
  rfl

theorem bytesOfLast_three_bytes (offset : Nat) (a b c : UInt8) :
    bytesOfLast offset ((groupValues a b c).map fun v => (symbol v, v)) = .ok [a, b, c] :=
  congrArg Except.ok (bytesOfValues_group rfl)

theorem exists_symbol_of_ne_nil {bytes : List UInt8} (h : bytes ≠ []) :
    ∃ v < 64, ∃ rest, encode bytes = symbol v :: rest := by
  match bytes with
  | [a] => exact ⟨_, groupValues_lt a 0 0 _ List.mem_cons_self, _, rfl⟩
  | [a, b] => exact ⟨_, groupValues_lt a b 0 _ List.mem_cons_self, _, rfl⟩
  | a :: b :: c :: _ => exact ⟨_, groupValues_lt a b c _ List.mem_cons_self, _, rfl⟩

theorem encode_ne_padding {bytes : List UInt8} (h : bytes ≠ []) (n : Nat) :
    encode bytes ≠ List.replicate n pad := by
  obtain ⟨v, hv, rest, hencode⟩ := exists_symbol_of_ne_nil h
  intro hpadding
  have hmem : symbol v ∈ List.replicate n pad := by simp [← hpadding, hencode]
  exact symbol_ne_pad hv (List.eq_of_mem_replicate hmem)

theorem decodeGroups_of_append_padding {data bytes : List UInt8} {n : Nat}
    (h : data ++ List.replicate n pad = encode bytes) (offset : Nat) (done : List UInt8) :
    decodeGroups offset done data = .ok (done.reverse ++ bytes) := by
  -- The bytes are taken three at a time, as they are written.
  induction bytes using encode.induct generalizing data offset done with
  | case1 =>
    obtain ⟨rfl, -⟩ := List.append_eq_nil_iff.mp h
    rfl
  | case2 a =>
    have hvalues : ∀ v ∈ (groupValues a 0 0).take 2, v < 64 := fun v hv =>
      groupValues_lt a 0 0 v (List.mem_of_mem_take hv)
    have hencode : encode [a] =
        ((groupValues a 0 0).take 2).map symbol ++ List.replicate 2 pad := rfl
    exact decodeGroups_last hvalues (Nat.le_refl 2) (Nat.le_refl 4) (h.trans hencode)
      (bytesOfLast_one_byte offset a) done
  | case3 a b =>
    have hvalues : ∀ v ∈ (groupValues a b 0).take 3, v < 64 := fun v hv =>
      groupValues_lt a b 0 v (List.mem_of_mem_take hv)
    have hencode : encode [a, b] =
        ((groupValues a b 0).take 3).map symbol ++ List.replicate 1 pad := rfl
    exact decodeGroups_last hvalues (Nat.le_succ 2) (Nat.le_refl 4) (h.trans hencode)
      (bytesOfLast_two_bytes offset a b) done
  | case4 a b c bytes ih =>
    by_cases hlast : bytes = []
    · subst hlast
      have hencode : encode [a, b, c] =
          (groupValues a b c).map symbol ++ List.replicate 0 pad := rfl
      exact decodeGroups_last (groupValues_lt a b c) (by simp [groupValues]) (Nat.le_refl 4)
        (h.trans hencode) (bytesOfLast_three_bytes offset a b c) done
    · rw [encode] at h
      rcases List.append_eq_append_iff.mp h with ⟨rest, -, hpadding⟩ | ⟨rest, rfl, hrest⟩
      · obtain ⟨-, -, hencode⟩ := List.append_eq_replicate_iff.mp hpadding.symm
        exact absurd hencode (encode_ne_padding hlast _)
      · cases rest with
        | nil => exact absurd hrest (encode_ne_padding hlast _)
        | cons next rest =>
          rw [decodeGroups_group a b c (List.cons_ne_nil _ _), ih hrest.symm]
          simp

/-- A text in base64 consists of symbols and padding. -/
theorem value?_of_mem_encode {bytes : List UInt8} {s : UInt8} (h : s ∈ encode bytes)
    (hs : s ≠ pad) : value? s ≠ none := by
  have hgroup : ∀ a b c, s ∈ encodeGroup a b c → value? s ≠ none := by
    intro a b c hmem
    rw [encodeGroup_eq] at hmem
    obtain ⟨v, hv, rfl⟩ := List.mem_map.mp hmem
    simp [value?_symbol v (groupValues_lt a b c v hv)]
  induction bytes using encode.induct with
  | case1 => cases h
  | case2 a =>
    rw [encode, List.mem_append] at h
    refine hgroup a 0 0 (List.mem_of_mem_take (h.resolve_right ?_))
    simp [hs]
  | case3 a b =>
    rw [encode, List.mem_append] at h
    refine hgroup a b 0 (List.mem_of_mem_take (h.resolve_right ?_))
    simp [hs]
  | case4 a b c bytes ih =>
    rw [encode, List.mem_append] at h
    exact h.elim (hgroup a b c) ih

theorem strayByte?_of_append_padding {data bytes : List UInt8} {n : Nat}
    (h : data ++ List.replicate n pad = encode bytes) : strayByte? data = none := by
  unfold strayByte?
  split
  · rfl
  · rename_i last hlast
    have hmem : last ∈ encode bytes := h ▸ List.mem_append_left _ (List.mem_of_getLast? hlast)
    rw [if_neg]
    rintro ⟨-, hpad, hvalue⟩
    exact value?_of_mem_encode hmem hpad hvalue

/-- A text in base64 is read as the bytes it was made of, also if its padding or some of it is
missing. -/
theorem decode_of_append_padding {data bytes : List UInt8} {n : Nat}
    (h : data ++ List.replicate n pad = encode bytes) : decode data = .ok bytes := by
  rw [decode, strayByte?_of_append_padding h]
  exact decodeGroups_of_append_padding h 0 []

/-! ### How much is read -/

theorem length_decodeGroup {offset : Nat} {b₀ b₁ b₂ b₃ : UInt8} {group : List UInt8}
    (h : decodeGroup offset b₀ b₁ b₂ b₃ = .ok group) : group.length = 3 := by
  simp only [decodeGroup, bind, Except.bind, pure, Except.pure] at h
  repeat' split at h
  all_goals cases h
  rfl

theorem length_bytesOfLast_le {offset : Nat} {symbols : List (UInt8 × Nat)} {group : List UInt8}
    (h : bytesOfLast offset symbols = .ok group) : group.length ≤ 3 := by
  unfold bytesOfLast at h
  grind [bytesOfValues]

/-- Of the last group, if there is one, at most three bytes are read. -/
theorem length_decodeLast_le {offset : Nat} {bytes group : List UInt8}
    (h : decodeLast offset bytes = .ok group) : group.length ≤ 3 * ((bytes.length + 3) / 4) := by
  cases bytes with
  | nil =>
    cases h
    exact Nat.le_refl 0
  | cons b bytes =>
    simp only [decodeLast, bind, Except.bind] at h
    split at h
    · cases h
    · have hgroup := length_bytesOfLast_le h
      grind

theorem length_decodeGroups_le {offset : Nat} {done bytes read : List UInt8}
    (h : decodeGroups offset done bytes = .ok read) :
    read.length ≤ done.length + 3 * ((bytes.length + 3) / 4) := by
  fun_induction decodeGroups offset done bytes with
  | case1 => cases h
  | case2 offset done b₀ b₁ b₂ b₃ b₄ bytes group hgroup ih =>
    have hrest := ih h
    have hlength := length_decodeGroup hgroup
    grind
  | case3 => cases h
  | case4 offset done last _ group hlast =>
    cases h
    have hlength := length_decodeLast_le hlast
    grind

/-- At most three bytes are read from every four of a text in base64. -/
theorem length_decode_le {bytes read : List UInt8} (h : decode bytes = .ok read) :
    read.length ≤ 3 * ((bytes.length + 3) / 4) := by
  unfold decode at h
  split at h
  · cases h
  · have hread := length_decodeGroups_le h
    rwa [List.length_nil, Nat.zero_add] at hread

/-! ### Base64 as characters -/

def text (bytes : List UInt8) : List Char := (encode bytes).map Char.ofUInt8

/-- Some bytes in base64, with all of the padding, some of it or none. -/
def Spells (s : List Char) (bytes : List UInt8) : Prop :=
  ∃ n, s ++ List.replicate n '=' = text bytes

theorem range_of_mem_encode {bytes : List UInt8} {s : UInt8} (h : s ∈ encode bytes) :
    0x2B ≤ s.toNat ∧ s.toNat ≤ 0x7A := by
  by_cases hs : s = pad
  · subst hs
    decide
  · have hvalue := value?_of_mem_encode h hs
    unfold value? at hvalue
    grind

theorem utf8EncodeChar_ofUInt8 {b : UInt8} (h : b.toNat ≤ 0x7F) :
    String.utf8EncodeChar (Char.ofUInt8 b) = [b] := by
  have hnat : (Char.ofUInt8 b).val.toNat = b.toNat := rfl
  rw [String.utf8EncodeChar]
  simp only [hnat, if_pos h, UInt8.ofNat_toNat]

theorem encodeUtf8_map_ofUInt8 {data : List UInt8} (h : ∀ b ∈ data, b.toNat ≤ 0x7F) :
    encodeUtf8 (data.map Char.ofUInt8) = data := by
  induction data with
  | nil => rfl
  | cons b data ih =>
    rw [List.forall_mem_cons] at h
    rw [List.map_cons, encodeUtf8_cons, utf8EncodeChar_ofUInt8 h.1, ih h.2]
    rfl

theorem ofUInt8_inj {b d : UInt8} (h : Char.ofUInt8 b = Char.ofUInt8 d) : b = d :=
  UInt8.toNat_inj.mp (congrArg Char.toNat h)

namespace Spells

variable {s : List Char} {bytes : List UInt8}

theorem exists_data (h : Spells s bytes) :
    ∃ (data : List UInt8) (n : Nat), s = data.map Char.ofUInt8 ∧
      data ++ List.replicate n pad = encode bytes := by
  obtain ⟨n, hpadding⟩ := h
  obtain ⟨data, padding, hencode, rfl, hpad⟩ := List.map_eq_append_iff.mp hpadding.symm
  obtain ⟨hlength, hchars⟩ := List.eq_replicate_iff.mp hpad
  have hreplicate : padding = List.replicate n pad := by
    refine List.eq_replicate_iff.mpr ⟨(List.length_map _).symm.trans hlength, fun b hb => ?_⟩
    exact ofUInt8_inj (hchars _ (List.mem_map_of_mem hb))
  exact ⟨data, n, rfl, by rw [hencode, hreplicate]⟩

/-- A text with less padding is read all the same. -/
theorem decode_eq (h : Spells s bytes) :
    (encodeUtf8 s).length = s.length ∧ decode (encodeUtf8 s) = .ok bytes := by
  obtain ⟨data, n, rfl, hencode⟩ := h.exists_data
  have hascii : ∀ b ∈ data, b.toNat ≤ 0x7F := fun b hb =>
    Nat.le_trans (range_of_mem_encode (hencode ▸ List.mem_append_left _ hb)).2 (by decide)
  rw [encodeUtf8_map_ofUInt8 hascii, List.length_map]
  exact ⟨rfl, decode_of_append_padding hencode⟩

/-- No other characters occur than symbols and padding. -/
theorem not_mem (h : Spells s bytes) {b : UInt8} (hvalue : value? b = none) (hpad : b ≠ pad) :
    Char.ofUInt8 b ∉ s := by
  obtain ⟨data, n, rfl, hencode⟩ := h.exists_data
  intro hmem
  obtain ⟨d, hd, heq⟩ := List.mem_map.mp hmem
  cases ofUInt8_inj heq
  exact value?_of_mem_encode (hencode ▸ List.mem_append_left _ hd) hpad hvalue

end Spells

end Base64

end ControlStream
