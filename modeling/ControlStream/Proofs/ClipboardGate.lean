import ControlStream.Proofs.ClipboardWrites
import ControlStream.Proofs.Framing

/-!
# What may be copied

A program that sends a stream can write to the clipboard of whoever reads it, so what it takes to do
so matters more than what else a command does. Nothing is copied but what a command in the stream
asks for and the settings permit, and all of that is copied, once and in order.

## Main definitions

* `Settings.PermitsCopy`: what it takes for a command to copy a text.
* `Settings.copiedText?`: the text that a command copies, if any.
* `Likeness.besideClipboard`: hosts that are the same but for their clipboards and whether these may
  be written.

## Main statements

* `Settings.copiedText?_eq_some_iff`: the two definitions agree.
* `Host.clipboard_command`: what a command does to the clipboard.
* `Progress.clipboard_after`: what a stream does to the clipboard.
* `Terminal.Reachable.clipboard_guarded`: all that is copied is permitted, all that is permitted is
  copied, and whether anything is makes no difference to anything else.
-/

namespace ControlStream

open ControlChar

namespace Settings

/-- What it takes for the payload of a command to copy a text. Clipboard writes are allowed, the
payload is not too long to be kept, it stands for a clipboard write, its target is the clipboard,
and its data, which are empty if there is no second separator, are no query, are within their limit
and can be read. -/
inductive PermitsCopy (settings : Settings) : List Char → String → Prop
  | intro {selector argument data : List Char} {bytes : List UInt8}
    (hallowed : settings.clipboardWrites = true)
    (hkept : (selector ++ ';' :: argument).length ≤ settings.payloadLimit)
    (hselector : ';' ∉ selector) (hnumber : parseNat? 65535 selector = some 52)
    (hgeneral : selector = selectionSelector ∨
      (selector ++ ';' :: argument).length ≤ settings.commandLimit.toNat)
    (hargument : argument = ['c'] ∧ data = [] ∨ argument = 'c' :: ';' :: data)
    (hquery : data ≠ ['?']) (hlimit : utf8Length data ≤ settings.clipboardLimit.toNat)
    (hdecode : Base64.decode (encodeUtf8 data) = .ok bytes) :
    settings.PermitsCopy (selector ++ ';' :: argument) (String.ofList (decodeUtf8Lossy bytes))

def copiedData? (settings : Settings) (argument : List Char) : Option String :=
  let (target, data) := (cutAt? ';' argument).getD (argument, [])
  if settings.clipboardWrites = true ∧ target = ['c'] ∧ data ≠ ['?'] ∧
      utf8Length data ≤ settings.clipboardLimit.toNat then
    match Base64.decode (encodeUtf8 data) with
    | .ok bytes => some (String.ofList (decodeUtf8Lossy bytes))
    | .error _ => none
  else none

def copiedText? (settings : Settings) (payload : List Char) : Option String :=
  match cutAt? ';' payload with
  | none => none
  | some (selector, argument) =>
    if payload.length ≤ settings.payloadLimit ∧ parseNat? 65535 selector = some 52 ∧
        (selector = selectionSelector ∨ payload.length ≤ settings.commandLimit.toNat) then
      settings.copiedData? argument
    else none

/-- The data of a clipboard write are what stands after its target. -/
theorem getD_cutAt?_eq_iff {argument data : List Char} :
    (cutAt? ';' argument).getD (argument, []) = (['c'], data) ↔
      argument = ['c'] ∧ data = [] ∨ argument = 'c' :: ';' :: data := by
  constructor
  · intro h
    cases hcut : cutAt? ';' argument with
    | none =>
      rw [hcut] at h
      cases h
      exact .inl ⟨rfl, rfl⟩
    | some parts =>
      rw [hcut, Option.getD_some] at h
      subst h
      exact .inr (cutAt?_eq_some_iff.mp hcut).1
  · rintro (⟨rfl, rfl⟩ | rfl) <;> rfl

variable {settings : Settings}

theorem copiedData?_eq_some_iff {argument : List Char} {text : String} :
    settings.copiedData? argument = some text ↔
      ∃ (data : List Char) (bytes : List UInt8), settings.clipboardWrites = true ∧
        (argument = ['c'] ∧ data = [] ∨ argument = 'c' :: ';' :: data) ∧ data ≠ ['?'] ∧
        utf8Length data ≤ settings.clipboardLimit.toNat ∧
        Base64.decode (encodeUtf8 data) = .ok bytes ∧
        text = String.ofList (decodeUtf8Lossy bytes) := by
  constructor
  · intro h
    unfold copiedData? at h
    cases hparts : (cutAt? ';' argument).getD (argument, []) with
    | mk target data =>
      simp only [hparts] at h
      split at h
      · rename_i hconditions
        obtain ⟨hallowed, rfl, hquery, hlimit⟩ := hconditions
        split at h
        · cases h
          exact ⟨data, _, hallowed, getD_cutAt?_eq_iff.mp hparts, hquery, hlimit, ‹_›, rfl⟩
        · cases h
      · cases h
  · rintro ⟨data, bytes, hallowed, hargument, hquery, hlimit, hdecode, rfl⟩
    simp only [copiedData?, getD_cutAt?_eq_iff.mpr hargument, hallowed, hdecode,
      if_pos (And.intro trivial (And.intro trivial (And.intro hquery hlimit)))]

theorem copiedText?_append {selector argument : List Char} (hselector : ';' ∉ selector) :
    settings.copiedText? (selector ++ ';' :: argument) =
      if (selector ++ ';' :: argument).length ≤ settings.payloadLimit ∧
          parseNat? 65535 selector = some 52 ∧ (selector = selectionSelector ∨
            (selector ++ ';' :: argument).length ≤ settings.commandLimit.toNat) then
        settings.copiedData? argument
      else none := by
  simp only [copiedText?, cutAt?_append hselector]

theorem copiedText?_of_long {payload : List Char} (hlong : settings.payloadLimit < payload.length) :
    settings.copiedText? payload = none := by
  unfold copiedText?
  split
  · rfl
  · exact if_neg fun h => Nat.not_le.mpr hlong h.1

/-- A command copies exactly the text that it is permitted to copy. -/
theorem copiedText?_eq_some_iff {payload : List Char} {text : String} :
    settings.copiedText? payload = some text ↔ settings.PermitsCopy payload text := by
  constructor
  · intro h
    unfold copiedText? at h
    split at h
    · cases h
    · rename_i selector argument hcut
      obtain ⟨rfl, hselector⟩ := cutAt?_eq_some_iff.mp hcut
      split at h
      · rename_i hconditions
        obtain ⟨hkept, hnumber, hgeneral⟩ := hconditions
        obtain ⟨data, bytes, hallowed, hargument, hquery, hlimit, hdecode, rfl⟩ :=
          copiedData?_eq_some_iff.mp h
        exact .intro hallowed hkept hselector hnumber hgeneral hargument hquery hlimit hdecode
      · cases h
  · rintro ⟨hallowed, hkept, hselector, hnumber, hgeneral, hargument, hquery, hlimit, hdecode⟩
    rw [copiedText?_append hselector, if_pos ⟨hkept, hnumber, hgeneral⟩]
    exact copiedData?_eq_some_iff.mpr
      ⟨_, _, hallowed, hargument, hquery, hlimit, hdecode, rfl⟩

namespace PermitsCopy

variable {payload : List Char} {text : String}

theorem allowed (h : settings.PermitsCopy payload text) : settings.clipboardWrites = true := by
  cases h with
  | intro hallowed => exact hallowed

/-- The limit for the clipboard bounds what is copied. -/
theorem length_le (h : settings.PermitsCopy payload text) :
    text.length ≤ 3 * ((settings.clipboardLimit.toNat + 3) / 4) := by
  cases h with
  | @intro selector argument data bytes _ _ _ _ _ _ _ hlimit hdecode =>
    have hbytes := Base64.length_decode_le hdecode
    have htext := length_decodeUtf8Lossy_le bytes
    rw [utf8Length_eq] at hlimit
    rw [String.length_ofList]
    grind

end PermitsCopy

/-- With the selector `52` itself only the target and the data matter. The length of the command is
a number of 64 bits. -/
theorem permitsCopy_of_selectionSelector {argument data : List Char} {bytes : List UInt8}
    (hallowed : settings.clipboardWrites = true)
    (hargument : argument = ['c'] ∧ data = [] ∨ argument = 'c' :: ';' :: data)
    (hquery : data ≠ ['?']) (hlimit : utf8Length data ≤ settings.clipboardLimit.toNat)
    (hdecode : Base64.decode (encodeUtf8 data) = .ok bytes)
    (hlength : (selectionSelector ++ ';' :: argument).length < Nat.pow 2 64) :
    settings.PermitsCopy (selectionSelector ++ ';' :: argument)
      (String.ofList (decodeUtf8Lossy bytes)) := by
  have hdata : data.length ≤ utf8Length data := by
    have hread := length_decodeUtf8Lossy_le (encodeUtf8 data)
    rwa [decodeUtf8Lossy_encodeUtf8, ← utf8Length_eq] at hread
  have hargumentLength : argument.length ≤ data.length + 2 := by
    rcases hargument with ⟨rfl, -⟩ | rfl <;> simp
  have hpayload : (selectionSelector ++ ';' :: argument).length = argument.length + 3 := by
    simp [selectionSelector]
  have hkept : (selectionSelector ++ ';' :: argument).length ≤ settings.payloadLimit := by
    unfold payloadLimit selectionPreamble
    omega
  exact .intro hallowed hkept (by decide) rfl (.inl rfl) hargument hquery hlimit hdecode

end Settings

/-! ### What a command copies -/

/-- Only the number of clipboard writes has to do with the clipboard. -/
theorem Host.Commanded.clipboard_eq {σ κ : Type} {a b : Host σ κ} {argument : List Char} {n : Nat}
    (h : a.Commanded argument n b) (hn : n ≠ 52) : b.clipboard = a.clipboard := by
  cases h with
  | indexedColors h =>
    obtain ⟨p, answers, -, rfl⟩ := h
    rfl
  | selection => exact absurd rfl hn
  | windowTitle | iconTitle | workdir | setDefault | answerDefault | resetIndexed | resetDefault
  | nothing => rfl

section Commands

variable {σ κ : Type} [Clipboard κ]

theorem Context.clipboard_selection (ctx : Context σ κ) (argument : List Char) :
    (ctx.selection argument).clipboard =
      copyAll (ctx.settings.copiedData? argument).toList ctx.clipboard := by
  unfold selection Settings.copiedData?
  generalize (cutAt? ';' argument).getD (argument, []) = parts
  obtain ⟨target, data⟩ := parts
  simp only
  split
  · rename_i htarget
    rw [if_neg fun h => htarget h.2.1]
    rfl
  · split
    · rename_i hforbidden
      rw [if_neg fun h => by simp [h.1] at hforbidden]
      rfl
    · split
      · rename_i hquery
        rw [if_neg fun h => h.2.2.1 hquery]
        rfl
      · unfold copyData
        split
        · rename_i hlong
          rw [if_neg fun h => Nat.not_lt.mpr h.2.2.2 hlong]
          rfl
        · rename_i htarget hallowed hquery hlimit
          rw [Classical.not_not] at htarget
          rw [Bool.not_eq_true, Bool.not_eq_false'] at hallowed
          rw [if_pos ⟨hallowed, htarget, hquery, Nat.not_lt.mp hlimit⟩]
          cases Base64.decode (encodeUtf8 data) with
          | error e => rfl
          | ok bytes => exact congrArg Host.clipboard (toHost_copy ctx _)

/-- A payload that is not too long copies the text that it is permitted to copy, if any. -/
theorem Host.clipboard_applyPayload (a : Host σ κ) {payload : List Char}
    (hkept : payload.length ≤ a.settings.payloadLimit) :
    (a.applyPayload payload).clipboard =
      copyAll (a.settings.copiedText? payload).toList a.clipboard := by
  have hexecutes := a.executes_applyPayload payload
  generalize hb : a.applyPayload payload = b at hexecutes
  cases hexecutes with
  | withoutArgument hseparator =>
    simp only [Settings.copiedText?, cutAt?_eq_none_iff.mpr hseparator]
    rfl
  | tooLong hpayload hselector hgeneral hlong =>
    subst hpayload
    rw [Settings.copiedText?_append hselector,
      if_neg fun h => h.2.2.elim hgeneral (Nat.not_le.mpr hlong)]
    rfl
  | unreadable hpayload hselector hnumber =>
    subst hpayload
    rw [Settings.copiedText?_append hselector, if_neg fun h => by simp [hnumber] at h]
    rfl
  | @command _ selector argument n hpayload hselector hshort hnumber hcommanded =>
    subst hpayload
    by_cases hn : n = 52
    · subst hn
      have hcommand : Command.ofSelector? selector = some .selection := by
        rw [Command.ofSelector?, hnumber]
        rfl
      rw [Settings.copiedText?_append hselector, if_pos ⟨hkept, hnumber, hshort⟩, ← hb,
        a.applyPayload_eq_apply hselector hshort hcommand]
      exact Context.clipboard_selection _ argument
    · rw [Settings.copiedText?_append hselector, if_neg fun h => by simp [hnumber, hn] at h]
      exact hcommanded.clipboard_eq hn

/-- A command copies the text that it is permitted to copy, if any. -/
theorem Host.clipboard_command (a : Host σ κ) (payload : List Char) :
    (a.command payload).clipboard =
      copyAll (a.settings.copiedText? payload).toList a.clipboard := by
  unfold command
  split
  · rename_i hlong
    rw [Settings.copiedText?_of_long hlong]
    rfl
  · rename_i hkept
    exact a.clipboard_applyPayload (Nat.not_lt.mp hkept)

end Commands

/-! ### What a stream copies -/

/-- A stream copies what its commands are permitted to copy, in order. -/
theorem Progress.clipboard_after {σ κ : Type} [Screen σ] [Clipboard κ] {x : Progress σ κ}
    {settings : Settings} (hsettings : (Likeness.ofSettings σ κ settings).Alike x x)
    (htidy : x.interpreter.Tidy settings.payloadLimit) {f : Framing}
    (h : x.interpreter.Frames settings.payloadLimit f) (s : List Char) :
    (x.after s).context.clipboard =
      copyAll ((f.commandsFrom s).filterMap settings.copiedText?) x.context.clipboard := by
  -- The framing is what the interpreter has in progress, and goes on as it does.
  induction s generalizing x f with
  | nil => rfl
  | cons c s ih =>
    have hlimit : x.context.settings = settings := hsettings.host.left
    have hnow : x.interpreter.Tidy x.context.settings.payloadLimit := hlimit ▸ htidy
    have hframes : x.interpreter.Frames x.context.settings.payloadLimit f := hlimit ▸ h
    have hclipboard : (x.tick c).context.clipboard =
        copyAll ((f.ended? c).toList.filterMap settings.copiedText?) x.context.clipboard := by
      rw [clipboard_tick hnow hframes]
      cases f.ended? c with
      | none => rfl
      | some payload =>
        have hcommand := x.context.toHost.clipboard_command payload
        rw [hlimit] at hcommand
        refine hcommand.trans ?_
        cases hcopied : settings.copiedText? payload <;> simp [hcopied]
    have hnext := frames_tick hnow hframes c
    rw [hlimit] at hnext
    rw [after_cons, ih (hsettings.tick c) (tidy_after hsettings htidy [c]) hnext, hclipboard,
      Framing.commandsFrom, List.filterMap_append, copyAll_append]

/-! ### Clipboards that may or may not be written -/

namespace Settings

def guarding (settings : Settings) (allowed : Bool) : Settings :=
  { settings with clipboardWrites := allowed }

variable (settings : Settings) (allowed : Bool)

theorem commandLimit_guarding :
    settings.commandLimit = (settings.guarding allowed).commandLimit := rfl

theorem clipboardLimit_guarding :
    settings.clipboardLimit = (settings.guarding allowed).clipboardLimit := rfl

/-- Answers have nothing to do with the clipboard. -/
theorem answered_guarding {r q : Replies} (answer : String) (h : r = q) :
    settings.answered r answer = (settings.guarding allowed).answered q answer := by
  rw [h]
  rfl

end Settings

variable {σ κ μ : Type}

/-- The same host with another clipboard, which may be written or not. -/
def Host.guarding (a : Host σ κ) (allowed : Bool) (clipboard : μ) : Host σ μ :=
  { a with clipboard, settings := a.settings.guarding allowed }

/-- What hosts have in common that differ at most in their clipboards and in whether these may be
written. -/
def Likeness.besideClipboard (σ κ μ : Type) [Screen σ] [Clipboard κ] [Clipboard μ]
    (settings : Settings) (allowed : Bool) : Likeness σ σ κ μ where
  ignored _ := False
  screen s t := s = t
  clipboard _ _ := True
  replies r q := r = q
  left := settings
  right := settings.guarding allowed
  graphicSet_not_ignored := not_false
  insertMode_not_ignored := not_false
  commandLimit_eq := settings.commandLimit_guarding allowed
  clipboardLimit_eq := settings.clipboardLimit_guarding allowed
  screen_on := Call.on_congr
  replies_answered := settings.answered_guarding allowed
  clipboard_copied _ _ := trivial

theorem Host.guarding_of_besideClipboard [Screen σ] [Clipboard κ] [Clipboard μ]
    {settings : Settings} {allowed : Bool} {a : Host σ κ} {b : Host σ μ}
    (h : (Likeness.besideClipboard σ κ μ settings allowed).Hosts a b) :
    b = a.guarding allowed b.clipboard := by
  obtain ⟨store, screen, clipboard, replies, settingsA⟩ := a
  obtain ⟨store', screen', clipboard', replies', settingsB⟩ := b
  obtain ⟨hstore, hscreen, -, hreplies, hleft, hright⟩ := h
  cases hstore.eq
  cases hscreen
  cases hreplies
  cases hleft
  cases hright
  rfl

namespace Terminal

def guarding (t : Terminal σ κ) (allowed : Bool) (clipboard : μ) : Terminal σ μ :=
  { t with host := t.host.guarding allowed clipboard }

variable [Screen σ] [Clipboard κ] {t : Terminal σ κ}

/-- Whether the clipboard may be written, and what becomes of what is written, makes no difference
to anything but the clipboard. -/
theorem AtRest.writeAll_guarding [Clipboard μ] (h : t.AtRest) (allowed : Bool) (clipboard : μ)
    (pieces : List (List Char)) :
    ∃ c, (t.guarding allowed clipboard).writeAll pieces =
      (t.writeAll pieces).guarding allowed c := by
  have hlike : (Likeness.besideClipboard σ κ μ t.host.settings allowed).Terminals t
      (t.guarding allowed clipboard) :=
    ⟨h, ⟨h.input, h.textDone, h.tidy⟩, rfl, ⟨.refl _ _, rfl, trivial, rfl, rfl, rfl⟩⟩
  have hpieces := hlike.writeAll pieces
  have hhost := Host.guarding_of_besideClipboard hpieces.host
  exact ⟨_, hpieces.eq_mk.trans (congrArg (Terminal.mk _ _) hhost)⟩

/-- However it is divided, a stream copies what its commands are permitted to copy. -/
theorem AtRest.clipboard_writeAll (h : t.AtRest) (hready : t.state = .ready)
    (pieces : List (List Char)) :
    (t.writeAll pieces).host.clipboard =
      copyAll ((commandsOf pieces.flatten).filterMap t.host.settings.copiedText?)
        t.host.clipboard := by
  have hflatten : pieces.flatten = [pieces.flatten].flatten := List.flatten_singleton.symm
  have hwhole : (t.writeAll pieces).host.clipboard = (t.write pieces.flatten).host.clipboard :=
    (sameBesideScreen_of_flatten_eq h hflatten).1.clipboard
  have hsettle := (t.progress.after pieces.flatten).sameCommands_settle.silent.clipboard
  have hafter := Progress.clipboard_after (x := t.progress) (f := .ground)
    (Progress.alike_ofSettings h.textDone) h.tidy (.inl hready) pieces.flatten
  rw [hwhole, write_eq h]
  exact hsettle.trans hafter

omit [Screen σ] [Clipboard κ] in
/-- The texts handed to the clipboard are those that the commands of the stream are permitted to
copy, in order. -/
theorem AtRest.copies_output (h : t.AtRest) (hready : t.state = .ready)
    (pieces : List (List Char)) :
    (t.output pieces).copies =
      (commandsOf pieces.flatten).filterMap t.host.settings.copiedText? := by
  have hclipboard := h.recorded.clipboard_writeAll hready pieces
  exact (congrArg Copies.texts hclipboard).trans (texts_copyAll _ _)

/-- The clipboard is given exactly the texts that commands of the stream are permitted to copy, each
once and in order, however the stream is divided. Whatever is written as a command is one of them
where nothing is being read, and every one of these commands stands in the stream from the character
that opens it to the one that ends it, and the limit for the clipboard bounds its text; with the
selector `52` itself nothing but its target and its data decides whether it is permitted. Whether
the clipboard may be written at all makes no difference to anything else. -/
theorem Reachable.clipboard_guarded (h : t.Reachable) (hready : t.state = .ready)
    (pieces : List (List Char)) :
    (t.writeAll pieces).host.clipboard = copyAll (t.output pieces).copies t.host.clipboard ∧
    (t.output pieces).copies =
      (commandsOf pieces.flatten).filterMap t.host.settings.copiedText? ∧
    (∀ payload text, t.host.settings.copiedText? payload = some text ↔
      t.host.settings.PermitsCopy payload text) ∧
    (∀ {front i payload e : List Char} (s : List Char),
      front.foldl Framing.next .ground = .ground → i ∈ commandIntroducers → IsPayload payload →
      e ∈ stringTerminators → commandsOf (front ++ (i ++ (payload ++ (e ++ s)))) =
        commandsOf front ++ payload :: commandsOf s) ∧
    (t.host.settings.clipboardWrites = false → (t.output pieces).copies = []) ∧
    (∀ text ∈ (t.output pieces).copies,
      text.length ≤ 3 * ((t.host.settings.clipboardLimit.toNat + 3) / 4) ∧
      ∃ before opener payload closer after, t.host.settings.PermitsCopy payload text ∧
        (opener = ']' ∨ opener = osc) ∧ (closer = bel ∨ closer = st ∨ closer = esc) ∧
        pieces.flatten = before ++ opener :: payload ++ closer :: after) ∧
    (∀ {argument data : List Char} {bytes : List UInt8},
      t.host.settings.clipboardWrites = true →
      (argument = ['c'] ∧ data = [] ∨ argument = 'c' :: ';' :: data) → data ≠ ['?'] →
      utf8Length data ≤ t.host.settings.clipboardLimit.toNat →
      Base64.decode (encodeUtf8 data) = .ok bytes →
      (selectionSelector ++ ';' :: argument).length < Nat.pow 2 64 →
      t.host.settings.PermitsCopy (selectionSelector ++ ';' :: argument)
        (String.ofList (decodeUtf8Lossy bytes))) ∧
    ∀ {μ : Type} [Clipboard μ] (allowed : Bool) (clipboard : μ),
      ∃ c, (t.guarding allowed clipboard).writeAll pieces =
        (t.writeAll pieces).guarding allowed c := by
  have hrest := h.atRest
  have hcopies := hrest.copies_output hready pieces
  have hpermits : ∀ text ∈ (t.output pieces).copies,
      ∃ payload ∈ commandsOf pieces.flatten, t.host.settings.PermitsCopy payload text := by
    intro text htext
    rw [hcopies] at htext
    obtain ⟨payload, hpayload, hcopied⟩ := List.mem_filterMap.mp htext
    exact ⟨payload, hpayload, Settings.copiedText?_eq_some_iff.mp hcopied⟩
  refine ⟨(hrest.receives_output pieces).clipboard, hcopies,
    fun _ _ => Settings.copiedText?_eq_some_iff,
    fun s hfront hi hpayload he => Framing.commandsOf_append hfront hi hpayload he s, ?_, ?_,
    Settings.permitsCopy_of_selectionSelector,
    fun allowed clipboard => hrest.writeAll_guarding allowed clipboard pieces⟩
  · intro hforbidden
    refine List.eq_nil_iff_forall_not_mem.mpr fun text htext => ?_
    obtain ⟨payload, -, hpermitted⟩ := hpermits text htext
    rw [hpermitted.allowed] at hforbidden
    cases hforbidden
  · intro text htext
    obtain ⟨payload, hpayload, hpermitted⟩ := hpermits text htext
    obtain ⟨-, before, opener, closer, after, hopener, hcloser, hstream⟩ :=
      exists_of_mem_commandsOf hpayload
    exact ⟨hpermitted.length_le, before, opener, payload, closer, after, hpermitted, hopener,
      hcloser, hstream⟩

/-- Three clipboard writes in two pieces, of which one has another target and one is a query. The
same stream copies nothing if the clipboard may not be written. -/
theorem clipboard_guarded_targets :
    let t := onPage (.empty 80) .standard
    let u := onPage (.empty 80) (Settings.standard.guarding false)
    let pieces := ["\x1b]52;p;aGk=\x07\x1b]52;c;a".toList, "Gk=\x07\x1b]52;c;?\x07".toList]
    t.Reachable ∧ t.state = .ready ∧ u.Reachable ∧ u.state = .ready ∧
      commandsOf pieces.flatten = ["52;p;aGk=".toList, "52;c;aGk=".toList, "52;c;?".toList] ∧
      (t.output pieces).copies = ["hi"] ∧ (u.output pieces).copies = [] ∧
      ∃ c, u.writeAll pieces = (t.writeAll pieces).guarding false c := by
  intro t u pieces
  have ht : t.Reachable := .onScreen _ _ _
  have hu : u.Reachable := .onScreen _ _ _
  obtain ⟨-, hcopies, -, -, -, -, -, hbeside⟩ := ht.clipboard_guarded rfl pieces
  obtain ⟨-, -, -, -, hforbidden, -⟩ := hu.clipboard_guarded rfl pieces
  have hcommands : commandsOf pieces.flatten =
      ["52;p;aGk=".toList, "52;c;aGk=".toList, "52;c;?".toList] := by decide
  have hhi : (commandsOf pieces.flatten).filterMap Settings.standard.copiedText? = ["hi"] := by
    decide +kernel
  exact ⟨ht, rfl, hu, rfl, hcommands, hcopies.trans hhi, hforbidden rfl,
    hbeside false MemoryClipboard.empty⟩

end Terminal

end ControlStream
