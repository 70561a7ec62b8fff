import ControlStream.Proofs.Commands
import ControlStream.Proofs.Encodings
import ControlStream.Proofs.Numerals
import ControlStream.Proofs.Output

/-!
# Clipboard writes

A command that writes to the clipboard gives a text as base64 of its UTF-8 bytes. Whatever the
general limit for commands is, the text arrives as it was if its base64 is within the limit for
the clipboard. But the general limit is only lifted for the selector `52` itself: numerals with the
same value choose the same command, within the general limit.

## Main definitions

* `copyPayload`: the payload of a command that writes to the clipboard.
* `Host.copying`: a host after a text was handed to its clipboard.
* `IsSelectionNumeral`: decimal digits that stand for the number of such commands.

## Main statements

* `Host.command_copyPayload`: what such a command does to a host.
* `Terminal.Reachable.clipboard_roundtrip`: the clipboard is given the text, once, and nothing else
  happens.
* `Terminal.Reachable.clipboard_numeral`: with zeros in front of its number, a command is subject to
  the general limit as well.
-/

namespace ControlStream

open ControlChar

def copyPayload (selector data : List Char) : List Char := selector ++ ';' :: 'c' :: ';' :: data

theorem isPayload_copyPayload {selector data : List Char} (hselector : IsPayload selector)
    (hdata : IsPayload data) : IsPayload (copyPayload selector data) := by
  have htarget : IsPayload [';', 'c', ';'] := by decide
  exact isPayload_append.mpr ⟨hselector, isPayload_append.mpr ⟨htarget, hdata⟩⟩

namespace Base64.Spells

variable {data : List Char} {bytes : List UInt8}

theorem isPayload (h : Spells data bytes) : IsPayload data := by
  intro c hc
  refine ⟨?_, ?_, ?_⟩
  · rintro rfl
    exact h.not_mem (b := 0x07) rfl (by decide) hc
  · rintro rfl
    exact h.not_mem (b := 0x9C) rfl (by decide) hc
  · rintro rfl
    exact h.not_mem (b := 0x1B) rfl (by decide) hc

/-- Data are not taken for a query. -/
theorem ne_query (h : Spells data bytes) : data ≠ ['?'] := by
  rintro rfl
  exact h.not_mem (b := 0x3F) rfl (by decide) List.mem_cons_self

end Base64.Spells

namespace Host

variable {σ κ : Type} {a : Host σ κ} {selector data : List Char} {bytes : List UInt8}

/-- What is kept of a command has room for the data and for what stands in front of them. -/
theorem length_copyPayload_le (hselector : selector.length ≤ 13)
    (hlimit : data.length ≤ a.settings.clipboardLimit.toNat)
    (hlength : (copyPayload selector data).length < Nat.pow 2 64) :
    (copyPayload selector data).length ≤ a.settings.payloadLimit := by
  have hpayload : (copyPayload selector data).length = selector.length + (data.length + 3) :=
    List.length_append
  unfold Settings.payloadLimit Settings.selectionPreamble
  omega

variable [Clipboard κ]

def copying (a : Host σ κ) (text : String) : Host σ κ :=
  { a with clipboard := (Clipboard.setText a.clipboard text).1 }

/-- Data that can be read and are within the limit for the clipboard are copied. -/
theorem applyPayload_copyPayload (hselector : ';' ∉ selector)
    (hnumber : parseNat? 65535 selector = some 52)
    (hgeneral : selector = selectionSelector ∨
      (copyPayload selector data).length ≤ a.settings.commandLimit.toNat)
    (hallowed : a.settings.clipboardWrites = true) (hquery : data ≠ ['?'])
    (hlimit : utf8Length data ≤ a.settings.clipboardLimit.toNat)
    (hdecode : Base64.decode (encodeUtf8 data) = .ok bytes) :
    a.applyPayload (copyPayload selector data) =
      a.copying (String.ofList (decodeUtf8Lossy bytes)) := by
  have hcommand : Command.ofSelector? selector = some .selection := by
    rw [Command.ofSelector?, hnumber]
    rfl
  have htarget : (cutAt? ';' ('c' :: ';' :: data)).getD ('c' :: ';' :: data, []) =
      (['c'], data) := rfl
  have hroom : ¬ utf8Length data > a.settings.clipboardLimit.toNat := Nat.not_lt.mpr hlimit
  rw [copyPayload, a.applyPayload_eq_apply hselector hgeneral hcommand]
  simp only [Command.apply, Context.selection, htarget, hallowed, Bool.not_true,
    Bool.false_eq_true, if_neg hquery, Context.copyData, if_neg hroom, hdecode, ne_eq,
    not_true_eq_false, if_false]
  exact Context.toHost_copy _ _

/-- A text in base64 is copied as it was if the general limit does not apply to its selector or is
not exceeded. -/
theorem command_copyPayload_of_number {s : String} (hselector : ';' ∉ selector)
    (hshort : selector.length ≤ 13) (hnumber : parseNat? 65535 selector = some 52)
    (hgeneral : selector = selectionSelector ∨
      (copyPayload selector data).length ≤ a.settings.commandLimit.toNat)
    (hdata : Base64.Spells data (encodeUtf8 s.toList))
    (hallowed : a.settings.clipboardWrites = true)
    (hlimit : data.length ≤ a.settings.clipboardLimit.toNat)
    (hlength : (copyPayload selector data).length < Nat.pow 2 64) :
    a.command (copyPayload selector data) = a.copying s := by
  obtain ⟨hbytes, hdecode⟩ := hdata.decode_eq
  have hroom : (copyPayload selector data).length ≤ a.settings.payloadLimit :=
    length_copyPayload_le hshort hlimit hlength
  have hutf8 : utf8Length data ≤ a.settings.clipboardLimit.toNat := by
    rw [utf8Length_eq, hbytes]
    exact hlimit
  rw [command, if_neg (Nat.not_lt.mpr hroom),
    applyPayload_copyPayload hselector hnumber hgeneral hallowed hdata.ne_query hutf8 hdecode,
    decodeUtf8Lossy_encodeUtf8, String.ofList_toList]

/-- A text in base64 is copied as it was, whatever the general limit is. -/
theorem command_copyPayload {s : String} (hdata : Base64.Spells data (encodeUtf8 s.toList))
    (hallowed : a.settings.clipboardWrites = true)
    (hlimit : data.length ≤ a.settings.clipboardLimit.toNat)
    (hlength : (copyPayload selectionSelector data).length < Nat.pow 2 64) :
    a.command (copyPayload selectionSelector data) = a.copying s :=
  command_copyPayload_of_number (by decide) (by decide) rfl (.inl rfl) hdata hallowed hlimit hlength

/-- A command with another selector that exceeds the general limit does nothing. -/
theorem command_of_exceeding {argument : List Char} (hselector : ';' ∉ selector)
    (hne : selector ≠ selectionSelector)
    (hlong : a.settings.commandLimit.toNat < (selector ++ ';' :: argument).length) :
    a.command (selector ++ ';' :: argument) = a := by
  rw [command]
  split
  · rfl
  · simp only [applyPayload, Context.applyPayload, cutAt?_append hselector,
      if_pos (And.intro hne hlong)]
    rfl

end Host

namespace Terminal

/-- A command that gives a text as base64, with its padding or some of it or without, hands that
text to the clipboard once. Nothing else happens, also if the clipboard does not take it. The length
of the command is a number of 64 bits. -/
theorem Reachable.clipboard_roundtrip {σ κ : Type} [Screen σ] [Clipboard κ] {t : Terminal σ κ}
    (h : t.Reachable) (hready : t.state = .ready)
    (hallowed : t.host.settings.clipboardWrites = true) {s : String} {data i e : List Char}
    (hdata : Base64.Spells data (encodeUtf8 s.toList))
    (hlimit : data.length ≤ t.host.settings.clipboardLimit.toNat)
    (hlength : (copyPayload selectionSelector data).length < Nat.pow 2 64)
    (hi : i ∈ commandIntroducers) (he : e ∈ stringTerminators) {pieces : List (List Char)}
    (hpieces : pieces.flatten = i ++ (copyPayload selectionSelector data ++ e)) :
    t.output pieces = ⟨[], [s], []⟩ ∧
      t.writeAll pieces =
        ({ t with host := t.host.copying s }).withLimit t.host.settings.payloadLimit := by
  have hselector : IsPayload selectionSelector := by decide
  have hpayload := isPayload_copyPayload hselector hdata.isPayload
  constructor
  · have hwrite := h.atRest.recorded.writeAll_command hready hi hpayload he hpieces
    have hcopy := Host.command_copyPayload (a := t.recorded.host) hdata hallowed hlimit hlength
    rw [output, hwrite, hcopy]
    rfl
  · have hwrite := h.atRest.writeAll_command hready hi hpayload he hpieces
    rwa [Host.command_copyPayload hdata hallowed hlimit hlength] at hwrite

/-- A text of two characters without the padding of its base64, in two pieces, for a clipboard that
refuses it. -/
theorem clipboard_roundtrip_refused :
    let t : Terminal Page RefusingClipboard := .onScreen (.empty 80) ⟨.unavailable, 0⟩ .standard
    let pieces := ["\x1b]52;c".toList, ";aGk\x07".toList]
    t.Reachable ∧ t.state = .ready ∧ Base64.Spells "aGk".toList (encodeUtf8 "hi".toList) ∧
      t.output pieces = ⟨[], ["hi"], []⟩ ∧ (t.writeAll pieces).host.clipboard.attempts = 1 := by
  intro t pieces
  have hreachable : t.Reachable := .onScreen _ _ _
  have hdata : Base64.Spells "aGk".toList (encodeUtf8 "hi".toList) := ⟨1, by decide⟩
  have hpieces : pieces.flatten =
      [esc, ']'] ++ (copyPayload selectionSelector "aGk".toList ++ [bel]) := rfl
  obtain ⟨houtput, hwrite⟩ := hreachable.clipboard_roundtrip rfl rfl hdata (by decide) (by decide)
    (by decide) (by decide) hpieces
  refine ⟨hreachable, rfl, hdata, houtput, ?_⟩
  rw [hwrite]
  rfl

end Terminal

/-! ### Other spellings of the selector -/

/-- Decimal digits that stand for the number of clipboard writes. -/
structure IsSelectionNumeral (selector : List Char) : Prop where
  digits : ∀ c ∈ selector, isDecimal c = true
  value : Nat.ofDigitChars 10 selector 0 = 52

namespace IsSelectionNumeral

variable {selector : List Char} (h : IsSelectionNumeral selector)
include h

theorem parseNat?_eq : parseNat? 65535 selector = some 52 := by
  have hne : selector ≠ [] := by
    rintro rfl
    cases h.value
  rw [parseNat?_of_isDecimal hne h.digits (by rw [h.value]; decide), h.value]

theorem not_mem_separator : ';' ∉ selector := fun hc => absurd (h.digits _ hc) (by decide)

theorem isPayload : IsPayload selector := by
  intro c hc
  have hdigit := h.digits c hc
  refine ⟨?_, ?_, ?_⟩ <;> rintro rfl <;> cases hdigit

end IsSelectionNumeral

namespace Terminal

/-- The general limit is only lifted for the selector that is spelled without zeros in front. With
any other spelling the text is handed to the clipboard if the whole command is within the general
limit, and otherwise nothing happens at all. -/
theorem Reachable.clipboard_numeral {σ κ : Type} [Screen σ] [Clipboard κ] {t : Terminal σ κ}
    (h : t.Reachable) (hready : t.state = .ready)
    (hallowed : t.host.settings.clipboardWrites = true) {selector : List Char}
    (hselector : IsSelectionNumeral selector) (hshort : selector.length ≤ 13) {s : String}
    {data i e : List Char} (hdata : Base64.Spells data (encodeUtf8 s.toList))
    (hlimit : data.length ≤ t.host.settings.clipboardLimit.toNat)
    (hlength : (copyPayload selector data).length < Nat.pow 2 64)
    (hi : i ∈ commandIntroducers) (he : e ∈ stringTerminators) {pieces : List (List Char)}
    (hpieces : pieces.flatten = i ++ (copyPayload selector data ++ e)) :
    (selector = selectionSelector ∨
        (copyPayload selector data).length ≤ t.host.settings.commandLimit.toNat →
      t.output pieces = ⟨[], [s], []⟩ ∧
        t.writeAll pieces =
          ({ t with host := t.host.copying s }).withLimit t.host.settings.payloadLimit) ∧
    (selector ≠ selectionSelector →
      t.host.settings.commandLimit.toNat < (copyPayload selector data).length →
      t.output pieces = ⟨[], [], []⟩ ∧
        t.writeAll pieces = t.withLimit t.host.settings.payloadLimit) := by
  have hpayload := isPayload_copyPayload hselector.isPayload hdata.isPayload
  have hwrite := h.atRest.writeAll_command hready hi hpayload he hpieces
  have hrecorded := h.atRest.recorded.writeAll_command hready hi hpayload he hpieces
  constructor
  · intro hgeneral
    have hnumber := hselector.parseNat?_eq
    have hseparator := hselector.not_mem_separator
    have hcopy := Host.command_copyPayload_of_number (a := t.recorded.host) hseparator hshort
      hnumber hgeneral hdata hallowed hlimit hlength
    rw [Host.command_copyPayload_of_number hseparator hshort hnumber hgeneral hdata hallowed hlimit
      hlength] at hwrite
    refine ⟨?_, hwrite⟩
    rw [output, hrecorded, hcopy]
    rfl
  · intro hne hlong
    have hseparator := hselector.not_mem_separator
    have hnothing : t.recorded.host.command (copyPayload selector data) = t.recorded.host :=
      Host.command_of_exceeding hseparator hne hlong
    rw [copyPayload, Host.command_of_exceeding hseparator hne hlong] at hwrite
    refine ⟨?_, hwrite⟩
    rw [output, hrecorded, hnothing]
    rfl

/-- A text whose selector has a zero in front, with and without room in the general limit. -/
theorem clipboard_numeral_zero :
    let t := onPage (.empty 80) .standard
    let u := onPage (.empty 80) { Settings.standard with commandLimit := 5 }
    let pieces := ["\x1b]052;c;aGk=\x07".toList]
    t.Reachable ∧ u.Reachable ∧ IsSelectionNumeral "052".toList ∧
      Base64.Spells "aGk=".toList (encodeUtf8 "hi".toList) ∧
      t.output pieces = ⟨[], ["hi"], []⟩ ∧ u.output pieces = ⟨[], [], []⟩ := by
  intro t u pieces
  have ht : t.Reachable := .onScreen _ _ _
  have hu : u.Reachable := .onScreen _ _ _
  have hselector : IsSelectionNumeral "052".toList := ⟨List.all_eq_true.mp rfl, by decide⟩
  have hdata : Base64.Spells "aGk=".toList (encodeUtf8 "hi".toList) := ⟨0, by decide⟩
  have hpieces : pieces.flatten = [esc, ']'] ++ (copyPayload "052".toList "aGk=".toList ++ [bel]) :=
    rfl
  obtain ⟨hcopied, -⟩ := ht.clipboard_numeral rfl rfl hselector (by decide) hdata (by decide)
    (by decide) (by decide) (by decide) hpieces
  obtain ⟨-, hdropped⟩ := hu.clipboard_numeral rfl rfl hselector (by decide) hdata (by decide)
    (by decide) (by decide) (by decide) hpieces
  exact ⟨ht, hu, hselector, hdata, (hcopied (.inr (by decide))).1,
    (hdropped (by decide) (by decide)).1⟩

/-- The limit for the clipboard leaves room for these data, and the text is still not copied: the
general limit is applied to the command because its selector has a zero in front. -/
theorem clipboard_numeral_not_copied :
    let t := onPage (.empty 80) { Settings.standard with commandLimit := 5 }
    t.Reachable ∧ t.state = .ready ∧ t.host.settings.clipboardWrites = true ∧
      IsSelectionNumeral "052".toList ∧
      Base64.Spells "aGk=".toList (encodeUtf8 "hi".toList) ∧
      "aGk=".toList.length ≤ t.host.settings.clipboardLimit.toNat ∧
      (t.write ([esc, ']'] ++ (copyPayload "052".toList "aGk=".toList ++ [bel]))).host.clipboard =
        .empty := by
  have hreachable : (onPage (.empty 80) { Settings.standard with commandLimit := 5 }).Reachable :=
    .onScreen _ _ _
  refine ⟨hreachable, rfl, rfl, ⟨List.all_eq_true.mp rfl, by decide⟩, ⟨0, by decide⟩, by decide, ?_⟩
  rw [write_eq hreachable.atRest]
  rfl

end Terminal

end ControlStream
