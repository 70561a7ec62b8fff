import ControlStream.Proofs.Actions
import ControlStream.Proofs.Strings

/-!
# What a command may do

A command acts once its string is complete, and on one part of its host only: a title, the working
directory, some colors and the replies, or the clipboard. What it does not act on, and everything if
the payload is too long or cannot be read, stays as it is, and nothing of the string is left in the
interpreter.

## Main definitions

* `Palette.AgreeBeside`: palettes that differ at most in certain colors.
* `Host.Commanded`: what the command of a number may make of a host.
* `Host.Executes`: what a payload may make of a host.
* `Host.SameBesideCommands`: hosts that differ at most in what commands act on.
* `Payload.Stage.Ends`: how a string that is being read may end.

## Main statements

* `Context.executes_applyPayload`: a payload does no more than it may.
* `Terminal.AtRest.writeAll_command`: a command leads back to where it began.
* `Terminal.Reachable.command_confined`: the end of a command has the effect of its payload, and no
  other.
-/

namespace ControlStream

open ControlChar

/-! ### Palettes that agree -/

/-- The default color that is set, if it is not left to the indexed colors. -/
def Palette.default? (p : Palette) : DefaultColor → Option Color
  | .foreground => p.current.foreground
  | .background => p.current.background

/-- Two palettes differ at most in those of their colors of which `changed` is true. -/
structure Palette.AgreeBeside (changed : ColorQuery → Prop) (p q : Palette) : Prop where
  initial : q.initial = p.initial
  indexed : ∀ i, ¬ changed (.indexed i) → q.get i = p.get i
  default : ∀ which, ¬ changed (.default which) → q.default? which = p.default? which

def ColorChange.Touches : ColorChange → ColorQuery → Prop
  | setIndexed i _, query => query = .indexed i
  | setDefault which _, query => query = .default which
  | resetIndexed i, query => query = .indexed i
  | resetAllIndexed, query => ∃ i, query = .indexed i
  | resetDefault which, query => query = .default which

namespace Palette

theorem getElem_set_toNat (colors : Vector Color 256) (i j : UInt8) (c : Color) :
    (colors.set i.toNat c (UInt8.toNat_lt i)).get j.toFin =
      if i = j then c else colors.get j.toFin := by
  have hset : (colors.set i.toNat c (UInt8.toNat_lt i)).get j.toFin =
      if i.toNat = j.toNat then c else colors.get j.toFin :=
    Vector.getElem_set (UInt8.toNat_lt i) (UInt8.toNat_lt j)
  simp only [UInt8.toNat_inj] at hset
  exact hset

theorem get_set (p : Palette) (i j : UInt8) (c : Color) :
    (p.set i c).get j = if i = j then c.masked else p.get j :=
  getElem_set_toNat p.current.indexed i j c.masked

theorem get_resetIndexed (p : Palette) (i j : UInt8) :
    (p.resetIndexed i).get j = if i = j then p.initial.indexed.get i.toFin else p.get j :=
  getElem_set_toNat p.current.indexed i j (p.initial.indexed.get i.toFin)

namespace AgreeBeside

variable {changed more : ColorQuery → Prop} {p q r : Palette}

theorem refl (changed : ColorQuery → Prop) (p : Palette) : p.AgreeBeside changed p :=
  ⟨rfl, fun _ _ => rfl, fun _ _ => rfl⟩

theorem trans (h : p.AgreeBeside changed q) (h' : q.AgreeBeside changed r) :
    p.AgreeBeside changed r where
  initial := h'.initial.trans h.initial
  indexed i hi := (h'.indexed i hi).trans (h.indexed i hi)
  default which hwhich := (h'.default which hwhich).trans (h.default which hwhich)

theorem mono (h : p.AgreeBeside changed q) (hmore : ∀ query, changed query → more query) :
    p.AgreeBeside more q where
  initial := h.initial
  indexed i hi := h.indexed i (mt (hmore _) hi)
  default which hwhich := h.default which (mt (hmore _) hwhich)

end AgreeBeside

end Palette

/-- A change concerns no other colors. -/
theorem ColorChange.agreeBeside_on (change : ColorChange) (p : Palette) :
    p.AgreeBeside change.Touches (change.on p) := by
  cases change with
  | setIndexed i c =>
    refine ⟨rfl, fun j hj => ?_, fun which _ => by cases which <;> rfl⟩
    rw [on, Palette.get_set, if_neg fun hij => hj (congrArg ColorQuery.indexed hij.symm)]
  | resetIndexed i =>
    refine ⟨rfl, fun j hj => ?_, fun which _ => by cases which <;> rfl⟩
    rw [on, Palette.get_resetIndexed, if_neg fun hij => hj (congrArg ColorQuery.indexed hij.symm)]
  | resetAllIndexed =>
    exact ⟨rfl, fun j hj => absurd ⟨j, rfl⟩ hj, fun which _ => by cases which <;> rfl⟩
  | setDefault which c | resetDefault which =>
    refine ⟨by cases which <;> rfl, fun j _ => by cases which <;> rfl, fun other hother => ?_⟩
    cases which <;> cases other <;> first | rfl | exact absurd rfl hother

/-! ### What commands may do -/

/-- The indices that stand where the command for indexed colors reads them, at every other field. -/
def listedIndices : List (List Char) → List UInt8
  | index :: _ :: fields => (Context.parseIndex? index).toList ++ listedIndices fields
  | _ => []

def commandNames : List String :=
  [Key.windowTitle.name, Key.iconTitle.name, Key.workdir.name]

def commandNumbers : List Nat := [0, 1, 2, 4, 7, 10, 11, 52, 104, 110, 111]

namespace Host

variable {σ κ : Type}

def withText (a : Host σ κ) (k : Key String) (s : List Char) : Host σ κ :=
  { a with store := a.store.set k (String.ofList s) }

def withPalette (a : Host σ κ) (p : Palette) : Host σ κ :=
  { a with store := { a.store with palette := p } }

def withAnswers (a : Host σ κ) (answers : List String) : Host σ κ :=
  { a with replies := ⟨a.replies.pending ++ answers.toArray⟩ }

/-- Colors have changed, at most those of which `changed` is true, and replies were added. -/
def Recolors (changed : ColorQuery → Prop) (a b : Host σ κ) : Prop :=
  ∃ (p : Palette) (answers : List String),
    a.store.palette.AgreeBeside changed p ∧ b = (a.withPalette p).withAnswers answers

/-- What the command of a number may make of a host. -/
inductive Commanded (a : Host σ κ) (argument : List Char) : Nat → Host σ κ → Prop
  | windowTitle {n : Nat} (hn : n = 0 ∨ n = 2) :
    a.Commanded argument n (a.withText .windowTitle argument)
  | iconTitle : a.Commanded argument 1 (a.withText .iconTitle argument)
  | workdir : a.Commanded argument 7 (a.withText .workdir argument)
  /-- Listed colors may change, and replies may be added. -/
  | indexedColors {b : Host σ κ}
    (h : a.Recolors (fun query => ∃ i ∈ listedIndices (fieldsOf ';' argument),
      query = .indexed i) b) : a.Commanded argument 4 b
  | setDefault (which : DefaultColor) {p : Palette}
    (hp : a.store.palette.AgreeBeside (· = .default which) p) :
    a.Commanded argument which.selector (a.withPalette p)
  | answerDefault (which : DefaultColor) {answers : List String} (hanswers : answers.length ≤ 1) :
    a.Commanded argument which.selector (a.withAnswers answers)
  | selection (clipboard : κ) : a.Commanded argument 52 { a with clipboard }
  | resetIndexed {p : Palette}
    (hp : a.store.palette.AgreeBeside (fun query => ∃ i, query = .indexed i) p) :
    a.Commanded argument 104 (a.withPalette p)
  | resetDefault (which : DefaultColor) {p : Palette}
    (hp : a.store.palette.AgreeBeside (· = .default which) p) :
    a.Commanded argument (which.selector + 100) (a.withPalette p)
  | nothing {n : Nat} (hn : n ∉ commandNumbers) : a.Commanded argument n a

inductive Executes (a : Host σ κ) (payload : List Char) : Host σ κ → Prop
  | withoutArgument (h : ';' ∉ payload) : a.Executes payload a
  /-- The general limit applies to every selector but that of clipboard writes. -/
  | tooLong {selector argument : List Char} (hpayload : payload = selector ++ ';' :: argument)
    (hselector : ';' ∉ selector) (hgeneral : selector ≠ ['5', '2'])
    (hlong : a.settings.commandLimit.toNat < payload.length) : a.Executes payload a
  | unreadable {selector argument : List Char} (hpayload : payload = selector ++ ';' :: argument)
    (hselector : ';' ∉ selector) (hnumber : parseNat? 65535 selector = none) :
    a.Executes payload a
  | command {b : Host σ κ} {selector argument : List Char} {n : Nat}
    (hpayload : payload = selector ++ ';' :: argument) (hselector : ';' ∉ selector)
    (hshort : selector = ['5', '2'] ∨ payload.length ≤ a.settings.commandLimit.toNat)
    (hnumber : parseNat? 65535 selector = some n) (h : a.Commanded argument n b) :
    a.Executes payload b

/-- Two hosts have the same screen and settings, and the same values but for those that commands
may set. -/
structure SameBesideCommands (a b : Host σ κ) : Prop where
  screen : b.screen = a.screen
  settings : b.settings = a.settings
  entries : ∀ name, name ∉ commandNames → b.store.entries[name]? = a.store.entries[name]?

theorem sameBesideCommands_withText (a : Host σ κ) {k : Key String} (hk : k.name ∈ commandNames)
    (s : List Char) : a.SameBesideCommands (a.withText k s) := by
  refine ⟨rfl, rfl, fun name hname => ?_⟩
  have hne : k.name ≠ name := by
    rintro rfl
    exact hname hk
  simp [withText, Store.set, Std.ExtTreeMap.getElem?_insert, hne]

/-- No command changes the screen or another value. -/
theorem Commanded.sameBesideCommands {a b : Host σ κ} {argument : List Char} {n : Nat}
    (h : a.Commanded argument n b) : a.SameBesideCommands b := by
  cases h with
  | windowTitle | iconTitle | workdir =>
    exact a.sameBesideCommands_withText (by decide) argument
  | indexedColors h =>
    obtain ⟨p, answers, -, rfl⟩ := h
    exact ⟨rfl, rfl, fun _ _ => rfl⟩
  | setDefault | answerDefault | selection | resetIndexed | resetDefault | nothing =>
    exact ⟨rfl, rfl, fun _ _ => rfl⟩

theorem Commanded.eq_withText {a b : Host σ κ} {argument : List Char}
    (h : a.Commanded argument 0 b) : b = a.withText .windowTitle argument := by
  generalize hzero : 0 = n at h
  cases h with
  | windowTitle => rfl
  | iconTitle | workdir | indexedColors | selection | resetIndexed => cases hzero
  | setDefault which | answerDefault which | resetDefault which => cases which <;> cases hzero
  | nothing hn => exact absurd (hzero ▸ by decide) hn

theorem Executes.sameBesideCommands {a b : Host σ κ} {payload : List Char}
    (h : a.Executes payload b) : a.SameBesideCommands b := by
  cases h with
  | withoutArgument | tooLong | unreadable => exact ⟨rfl, rfl, fun _ _ => rfl⟩
  | command _ _ _ _ h => exact h.sameBesideCommands

/-- A title that is short enough can only be set. -/
theorem Executes.eq_withText {a b : Host σ κ} {argument : List Char}
    (h : a.Executes ('0' :: ';' :: argument) b)
    (hshort : ('0' :: ';' :: argument).length ≤ a.settings.commandLimit.toNat) :
    b = a.withText .windowTitle argument := by
  have hcut : cutAt? ';' ('0' :: ';' :: argument) = some (['0'], argument) :=
    cutAt?_eq_some_iff.mpr ⟨rfl, by decide⟩
  have hparts {selector rest : List Char} (h : '0' :: ';' :: argument = selector ++ ';' :: rest)
      (hselector : ';' ∉ selector) : selector = ['0'] ∧ rest = argument := by
    rw [cutAt?_eq_some_iff.mpr ⟨h, hselector⟩] at hcut
    simpa using hcut
  cases h with
  | withoutArgument h => exact absurd (List.mem_cons_of_mem _ List.mem_cons_self) h
  | tooLong _ _ _ hlong => omega
  | unreadable h hselector hnumber =>
    obtain ⟨rfl, -⟩ := hparts h hselector
    exact absurd hnumber (by decide)
  | command h hselector _ hnumber hcommand =>
    obtain ⟨rfl, rfl⟩ := hparts h hselector
    have hzero : parseNat? 65535 ['0'] = some 0 := by decide
    rw [hzero, Option.some.injEq] at hnumber
    exact (hnumber ▸ hcommand).eq_withText

/-! ### Colors and replies -/

namespace Recolors

variable {changed more : ColorQuery → Prop} {a b c : Host σ κ}

theorem refl (changed : ColorQuery → Prop) (a : Host σ κ) : a.Recolors changed a :=
  ⟨a.store.palette, [], .refl _ _, by simp [withPalette, withAnswers]⟩

theorem trans (h : a.Recolors changed b) (h' : b.Recolors changed c) :
    a.Recolors changed c := by
  obtain ⟨p, answers, hp, rfl⟩ := h
  obtain ⟨q, others, hq, rfl⟩ := h'
  exact ⟨q, answers ++ others, hp.trans hq, by simp [withPalette, withAnswers]⟩

theorem mono (h : a.Recolors changed b) (hmore : ∀ query, changed query → more query) :
    a.Recolors more b := by
  obtain ⟨p, answers, hp, rfl⟩ := h
  exact ⟨p, answers, hp.mono hmore, rfl⟩

end Recolors

end Host

def Settings.answers (s : Settings) (answer : String) : List String :=
  if s.answerColorQueries then [answer] else []

namespace Context

variable {σ κ : Type} (ctx : Context σ κ)

theorem answerColor_eq_withAnswers (selector : String) (c : Color) :
    (ctx.answerColor selector c).toHost =
      ctx.toHost.withAnswers (ctx.settings.answers (colorAnswer selector c)) := by
  rw [toHost_answerColor, Settings.answered, Settings.answers]
  split <;> simp [Host.withAnswers, Replies.emit]

theorem recolors_indexedColor (i : UInt8) (spec : List Char) :
    ctx.toHost.Recolors (· = .indexed i) (ctx.indexedColor i spec).toHost := by
  unfold indexedColor
  split
  · rw [answerColor_eq_withAnswers]
    exact ⟨ctx.store.palette, _, .refl _ _, rfl⟩
  · split
    · rename_i c _
      refine ⟨_, [], ColorChange.agreeBeside_on (.setIndexed i c) _, ?_⟩
      simp [Host.withAnswers, Host.withPalette, ColorChange.on, modifyPalette, Store.modifyPalette]
    · exact .refl _ _

/-- Indexed colors change only if they are listed. -/
theorem recolors_indexedColors (fields : List (List Char)) :
    ctx.toHost.Recolors (fun query => ∃ i ∈ listedIndices fields, query = .indexed i)
      (ctx.indexedColors fields).toHost := by
  -- The fields are taken two at a time, as the command takes them.
  induction ctx, fields using indexedColors.induct with
  | case1 ctx index spec fields hindex =>
    simp only [indexedColors, hindex]
    exact .refl _ _
  | case2 ctx index spec fields i hindex ih =>
    simp only [indexedColors, hindex]
    have hlisted : listedIndices (index :: spec :: fields) = i :: listedIndices fields := by
      simp [listedIndices, hindex]
    have hfirst : ctx.toHost.Recolors
        (fun query => ∃ i ∈ listedIndices (index :: spec :: fields), query = .indexed i)
        (ctx.indexedColor i spec).toHost :=
      (ctx.recolors_indexedColor i spec).mono fun query hquery => ⟨i, by simp [hlisted], hquery⟩
    refine hfirst.trans (ih.mono ?_)
    rintro query ⟨j, hj, rfl⟩
    exact ⟨j, by simp [hlisted, hj], rfl⟩
  | case3 fields ctx hfields =>
    rw [indexedColors.eq_2 _ _ hfields]
    exact .refl _ _

/-- Bringing back listed colors changes no other than indexed ones. -/
theorem exists_withPalette_foldl_resetIndexed (fields : List (List Char)) :
    ∃ p, ctx.store.palette.AgreeBeside (fun query => ∃ i, query = .indexed i) p ∧
      (fields.foldl resetIndexed ctx).toHost = ctx.toHost.withPalette p := by
  induction fields generalizing ctx with
  | nil => exact ⟨_, .refl _ _, rfl⟩
  | cons index fields ih =>
    obtain ⟨p, hp, heq⟩ := ih (ctx.resetIndexed index)
    unfold resetIndexed at hp heq ⊢
    cases hindex : parseIndex? index with
    | none =>
      simp only [hindex] at hp heq
      refine ⟨p, hp, ?_⟩
      rw [List.foldl_cons, hindex]
      exact heq
    | some i =>
      simp only [hindex] at hp heq
      have hreset := ColorChange.agreeBeside_on (.resetIndexed i) ctx.store.palette
      refine ⟨p, (hreset.mono fun query hquery => ⟨i, hquery⟩).trans hp, ?_⟩
      rw [List.foldl_cons, hindex]
      exact heq

theorem commanded_defaultColor (which : DefaultColor) (argument : List Char) :
    ctx.toHost.Commanded argument which.selector (ctx.defaultColor which argument).toHost := by
  have hlength : ∀ answer, (ctx.settings.answers answer).length ≤ 1 := by
    intro answer
    unfold Settings.answers
    split <;> simp
  unfold defaultColor
  split
  · rename_i c _
    exact .setDefault which (ColorChange.agreeBeside_on (.setDefault which c) _)
  · simp only
    split
    · rw [answerColor_eq_withAnswers]
      exact .answerDefault which (hlength _)
    · rw [answerColor_eq_withAnswers]
      exact .answerDefault which (hlength _)

section Payloads

variable [Clipboard κ]

theorem exists_clipboard_selection (argument : List Char) :
    ∃ clipboard, (ctx.selection argument).toHost = { ctx.toHost with clipboard } := by
  unfold selection
  generalize (cutAt? ';' argument).getD (argument, []) = parts
  obtain ⟨target, data⟩ := parts
  simp only [copyData]
  split
  · exact ⟨_, rfl⟩
  · split
    · exact ⟨_, rfl⟩
    · split
      · exact ⟨_, rfl⟩
      · split
        · exact ⟨_, rfl⟩
        · split
          · exact ⟨_, rfl⟩
          · exact ⟨_, toHost_copy ctx _⟩

/-- A command does no more than the command of its number may do. -/
theorem commanded_apply {n : Nat} {command : Command} (hn : Command.ofNumber? n = some command)
    (argument : List Char) :
    ctx.toHost.Commanded argument n (command.apply argument ctx).toHost := by
  unfold Command.ofNumber? at hn
  split at hn <;> cases hn
  · exact .windowTitle (.inl rfl)
  · exact .windowTitle (.inr rfl)
  · exact .iconTitle
  · exact .indexedColors (ctx.recolors_indexedColors _)
  · exact .workdir
  · exact .nothing (by decide)
  · exact ctx.commanded_defaultColor .foreground argument
  · exact ctx.commanded_defaultColor .background argument
  · obtain ⟨clipboard, heq⟩ := ctx.exists_clipboard_selection argument
    rw [Command.apply, heq]
    exact .selection clipboard
  · simp only [Command.apply]
    split
    · exact .resetIndexed (ColorChange.agreeBeside_on .resetAllIndexed _)
    · obtain ⟨p, hp, heq⟩ := ctx.exists_withPalette_foldl_resetIndexed (fieldsOf ';' argument)
      rw [heq]
      exact .resetIndexed hp
  · exact .resetDefault .foreground (ColorChange.agreeBeside_on (.resetDefault .foreground) _)
  · exact .resetDefault .background (ColorChange.agreeBeside_on (.resetDefault .background) _)

theorem not_mem_commandNumbers {n : Nat} (hn : Command.ofNumber? n = none) :
    n ∉ commandNumbers := by
  intro hmem
  simp only [commandNumbers, List.mem_cons, List.not_mem_nil, or_false] at hmem
  rcases hmem with rfl | rfl | rfl | rfl | rfl | rfl | rfl | rfl | rfl | rfl | rfl <;> cases hn

/-- A payload does no more than it may. -/
theorem executes_applyPayload (payload : List Char) :
    ctx.toHost.Executes payload (ctx.applyPayload payload).toHost := by
  unfold applyPayload
  split
  · rename_i hcut
    exact .withoutArgument (cutAt?_eq_none_iff.mp hcut)
  · rename_i selector argument hcut
    obtain ⟨hpayload, hselector⟩ := cutAt?_eq_some_iff.mp hcut
    split
    · rename_i hlong
      exact .tooLong hpayload hselector hlong.1 hlong.2
    · rename_i hshort
      rw [Classical.not_and_iff_not_or_not, Classical.not_not, Nat.not_lt] at hshort
      unfold Command.ofSelector?
      cases hnumber : parseNat? 65535 selector with
      | none => exact .unreadable hpayload hselector hnumber
      | some n =>
        refine .command hpayload hselector hshort hnumber ?_
        rw [Option.bind_some]
        split
        · exact ctx.commanded_apply ‹_› argument
        · exact .nothing (not_mem_commandNumbers ‹_›)

end Payloads

end Context

/-! ### Payloads that are kept -/

namespace Payload

def keepAll (p : Payload) (s : List Char) : Payload := s.foldl keep p

variable {p : Payload}

theorem overflowed_keepAll (h : p.length ≤ p.limit) (s : List Char) :
    (p.keepAll s).overflowed = true ↔ p.overflowed = true ∨ p.limit < p.length + s.length := by
  induction s generalizing p with
  | nil =>
    have hroom : ¬ p.limit < p.length := by omega
    simp [keepAll, hroom]
  | cons c s ih =>
    have hnext := @ih (p.keep c)
    rw [List.length_cons, keepAll, List.foldl_cons]
    unfold keep at hnext ⊢
    split at hnext
    · rw [if_pos ‹_›]
      refine (hnext (by simp only; omega)).trans (or_congr .rfl ?_)
      simp only
      omega
    · rw [if_neg ‹_›]
      refine (hnext h).trans (iff_of_true (.inl rfl) (.inr ?_))
      omega

theorem chars_keepAll {s : List Char} (h : p.length + s.length ≤ p.limit) :
    (p.keepAll s).chars = p.chars ++ s := by
  induction s generalizing p with
  | nil => exact (List.append_nil _).symm
  | cons c s ih =>
    rw [List.length_cons] at h
    have hroom : p.length < p.limit := by omega
    rw [keepAll, List.foldl_cons, keep, if_pos hroom]
    refine (ih (by simp only; omega)).trans ?_
    simp [chars]

end Payload

/-! ### The end of a command -/

/-- How a string that is being read may end: the rest of its payload, all characters up to its end,
and the character that interrupts it, if one does. -/
inductive Payload.Stage.Ends : Payload.Stage → List Char → List Char → Option Char → Prop
  | terminated {rest e : List Char} (hrest : IsPayload rest) (he : e ∈ stringTerminators) :
    collecting.Ends rest (rest ++ e) none
  | interrupted {rest : List Char} {c : Char} (hrest : IsPayload rest) (hc : c ≠ '\\') :
    collecting.Ends rest (rest ++ [esc, c]) (some c)
  /-- The ESC of the end has been read. -/
  | backslash : escaped.Ends [] ['\\'] none
  | broken {c : Char} (hc : c ≠ '\\') : escaped.Ends [] [c] (some c)

/-- The escape sequence that begins where a string was interrupted. -/
def interruption : Option Char → List Char
  | none => []
  | some c => [esc, c]

def Host.applyPayload {σ κ : Type} [Clipboard κ] (a : Host σ κ) (payload : List Char) :
    Host σ κ :=
  (Context.applyPayload { a with events := #[] } payload).toHost

/-- What a host becomes by a command, which is dropped if it is too long to be kept. -/
def Host.command {σ κ : Type} [Clipboard κ] (a : Host σ κ) (payload : List Char) : Host σ κ :=
  if a.settings.payloadLimit < payload.length then a else a.applyPayload payload

theorem Host.executes_applyPayload {σ κ : Type} [Clipboard κ] (a : Host σ κ)
    (payload : List Char) : a.Executes payload (a.applyPayload payload) :=
  Context.executes_applyPayload { a with events := #[] } payload

/-- A payload that can be read and is not too long acts as the command of its selector. -/
theorem Host.applyPayload_eq_apply {σ κ : Type} [Clipboard κ] (a : Host σ κ)
    {selector argument : List Char} {command : Command} (hselector : ';' ∉ selector)
    (hshort : selector = selectionSelector ∨
      (selector ++ ';' :: argument).length ≤ a.settings.commandLimit.toNat)
    (hcommand : Command.ofSelector? selector = some command) :
    a.applyPayload (selector ++ ';' :: argument) =
      (command.apply argument (Context.mk a #[])).toHost := by
  have hroom : ¬ (selector ≠ selectionSelector ∧
      (selector ++ ';' :: argument).length > a.settings.commandLimit.toNat) := by
    rintro ⟨hgeneral, hlong⟩
    exact hshort.elim hgeneral fun hle => absurd hlong (Nat.not_lt.mpr hle)
  simp only [applyPayload, Context.applyPayload, cutAt?_append hselector, if_neg hroom, hcommand]

/-- A payload that does anything can be read and is not too long. -/
theorem Host.applyPayload_cases {σ κ : Type} [Clipboard κ] (a : Host σ κ) (payload : List Char) :
    a.applyPayload payload = a ∨
      ∃ (selector argument : List Char) (command : Command),
        payload = selector ++ ';' :: argument ∧ ';' ∉ selector ∧
        (selector = selectionSelector ∨ payload.length ≤ a.settings.commandLimit.toNat) ∧
        Command.ofSelector? selector = some command := by
  unfold applyPayload Context.applyPayload
  split
  · exact .inl rfl
  · rename_i selector argument hcut
    obtain ⟨hpayload, hselector⟩ := cutAt?_eq_some_iff.mp hcut
    split
    · exact .inl rfl
    · rename_i hshort
      rw [Classical.not_and_iff_not_or_not, Classical.not_not, Nat.not_lt] at hshort
      split
      · exact .inr ⟨selector, argument, _, hpayload, hselector, hshort, ‹_›⟩
      · exact .inl rfl

namespace Progress

variable {σ κ : Type} [Screen σ] [Clipboard κ] {x y : Progress σ κ}

def commandEnd (x : Progress σ κ) (rest : List Char) : Progress σ κ :=
  let limit := x.context.settings.payloadLimit
  ⟨{ x.interpreter with command := ⟨.empty limit⟩ },
    CommandString.finish ⟨(x.interpreter.command.payload.setLimit limit).keepAll rest⟩ x.context⟩

omit [Screen σ] in
theorem endString_of_command (hstate : x.interpreter.state = .command) :
    x.endString = x.commandEnd [] := by
  simp only [endString, commandEnd, hstate]
  rfl

/-- A command that is complete has acted with all of its payload that was kept. -/
theorem ReadsString.endString_after (h : x.ReadsString .collecting)
    (hstate : x.interpreter.state = .command) {s : List Char} (hs : IsPayload s) :
    (x.after s).endString = x.commandEnd s := by
  induction s generalizing x with
  | nil => exact endString_of_command hstate
  | cons c s ih =>
    rw [IsPayload, List.forall_mem_cons] at hs
    have hstage := h.command_stage hstate x.context.settings.payloadLimit
    have hkeep := Payload.feed_of_plain hstage hs.1
    have hopen := (Payload.stage_keep _ c).trans hstage
    have htick : x.tick c = ⟨{ x.interpreter with
        state := .command
        command := ⟨(x.interpreter.command.payload.setLimit
          x.context.settings.payloadLimit).keep c⟩ }, x.context⟩ := by
      simp only [tick, hstate, tickCommand, hkeep, hopen]
    have hlimit := Payload.setLimit_feed_setLimit x.interpreter.command.payload
      x.context.settings.payloadLimit c
    have hnext := h.tick_plain hs.1
    rw [hkeep] at hlimit
    rw [htick] at hnext
    rw [after_cons, htick, ih hnext rfl hs.2, commandEnd, hlimit, ← hstate]
    rfl

/-- A command that is being read comes to its end. -/
theorem leadsTo_commandEnd (hstate : x.interpreter.state = .command)
    (hdone : x.interpreter.TextDone) {rest whole : List Char} {interrupt : Option Char}
    (hends : x.interpreter.command.payload.stage.Ends rest whole interrupt) :
    x.LeadsTo whole ((x.commandEnd rest).afterString interrupt) := by
  have hreads : x.ReadsString x.interpreter.command.payload.stage :=
    ⟨by rw [hstate]; rfl, by rw [stringPayload, hstate]⟩
  generalize x.interpreter.command.payload.stage = stage at hends hreads
  cases hends with
  | @terminated rest e hrest he =>
    have hbody := LeadsTo.of_textless (hreads.textless_payload hdone hrest)
    have hend := (hreads.after_payload hrest).leadsTo_terminator hbody.textDone he
    rw [hreads.endString_after hstate hrest] at hend
    exact hbody.append hend
  | @interrupted rest c hrest hc =>
    have hbody := LeadsTo.of_textless (hreads.textless_payload hdone hrest)
    have hend := (hreads.after_payload hrest).leadsTo_esc hbody.textDone c
    rw [hreads.endString_after hstate hrest, if_neg hc] at hend
    exact hbody.append hend
  | backslash =>
    have hend := hreads.tick_of_escaped hdone '\\'
    rw [endString_of_command hstate, if_pos rfl] at hend
    exact .single hdone (textDone_afterString (x := x.commandEnd []) hdone.textRun none) hend
  | @broken c hc =>
    have hend := hreads.tick_of_escaped hdone c
    rw [endString_of_command hstate, if_neg hc] at hend
    exact .single hdone (textDone_afterString (x := x.commandEnd []) hdone.textRun (some c)) hend

/-- With nothing in progress, an escape sequence that would interrupt a string begins anew. -/
theorem leadsTo_interruption (hidle : x.interpreter.Idle) (interrupt : Option Char) :
    x.LeadsTo (interruption interrupt) (x.afterString interrupt) := by
  cases interrupt with
  | none =>
    have hself : x.afterString none = x := by
      rw [afterString, withState, ← hidle.ready]
    rw [hself]
    exact .of_textless hidle.textDone
  | some c => exact leadsTo_esc_of_ready hidle.textDone hidle.ready c

/-- Nothing is left of a command that has ended but its effect on the host. -/
theorem afterString_commandEnd_withLimit
    (hstate : x.interpreter.state = .command) (hdone : x.interpreter.TextDone) {limit : Nat}
    (htidy : x.interpreter.Tidy limit) (rest : List Char) (interrupt : Option Char) (n : Nat) :
    ((x.commandEnd rest).afterString interrupt).withLimit n =
      (afterString ⟨.initial, (x.commandEnd rest).context⟩ interrupt).withLimit n := by
  have hescape := htidy.escape.resolve_left (by simp [hstate])
  have hcontrol := htidy.control.resolve_left (by simp [hstate])
  have hskipped := htidy.skipped.resolve_left (by simp [hstate])
  rw [← afterString_withLimit, ← afterString_withLimit]
  simp only [commandEnd, withLimit, Interpreter.withLimit, hescape, hcontrol, hskipped,
    hdone.textRun]
  cases interrupt <;> rfl

end Progress

namespace Terminal

variable {σ κ : Type}

/-- A command that ends after some more characters is too long for its payload to be kept. -/
def Overflows (t : Terminal σ κ) (rest : List Char) : Prop :=
  t.interpreter.command.payload.overflowed = true ∨
    t.host.settings.payloadLimit < (t.interpreter.command.payload.chars ++ rest).length

def payloadWith (t : Terminal σ κ) (rest : List Char) : Payload :=
  (t.interpreter.command.payload.setLimit t.host.settings.payloadLimit).keepAll rest

variable {t u : Terminal σ κ}

section Payloads

variable (h : t.AtRest) {rest : List Char}
include h

theorem overflowed_payloadWith : (t.payloadWith rest).overflowed = true ↔ t.Overflows rest := by
  have hoverflow := Payload.overflowed_keepAll
    (p := t.interpreter.command.payload.setLimit t.host.settings.payloadLimit)
    h.tidy.payload.length_le rest
  refine hoverflow.trans (or_congr .rfl ?_)
  rw [List.length_append, ← h.tidy.payload.length_eq]
  rfl

theorem chars_payloadWith (hshort : ¬ t.Overflows rest) :
    (t.payloadWith rest).chars = t.interpreter.command.payload.chars ++ rest := by
  refine Payload.chars_keepAll
    (p := t.interpreter.command.payload.setLimit t.host.settings.payloadLimit) ?_
  have hroom := Nat.le_of_not_lt (not_or.mp hshort).2
  rw [List.length_append, ← h.tidy.payload.length_eq] at hroom
  exact hroom

variable [Clipboard κ]

/-- A command that is too long does nothing. -/
theorem toHost_commandEnd_of_overflows (hlong : t.Overflows rest) :
    (t.progress.commandEnd rest).context.toHost = t.host := by
  have hoverflow : (t.payloadWith rest).overflowed = true := (overflowed_payloadWith h).mpr hlong
  exact congrArg Context.toHost (if_pos hoverflow)

/-- A command acts with the payload that has been kept and what is still to come. -/
theorem toHost_commandEnd_of_not_overflows (hshort : ¬ t.Overflows rest) :
    (t.progress.commandEnd rest).context.toHost =
      t.host.applyPayload (t.interpreter.command.payload.chars ++ rest) := by
  have hkept : ¬ (t.payloadWith rest).overflowed = true := mt (overflowed_payloadWith h).mp hshort
  rw [← chars_payloadWith h hshort]
  exact congrArg Context.toHost (if_neg hkept)

end Payloads

/-- Terminals at rest are equal but for the limit that is noted if they are at the same point but
for it. -/
theorem AtRest.withLimit_eq_of_same (ht : t.AtRest) (hu : u.AtRest) {x y : Progress σ κ}
    (hx : t.progress.Same x) (hy : u.progress.Same y) {n : Nat}
    (h : x.withLimit n = y.withLimit n) : t.withLimit n = u.withLimit n := by
  have hinterpreter : t.interpreter.withLimit n = u.interpreter.withLimit n := by
    rw [show t.interpreter = x.interpreter from hx.interpreter,
      show u.interpreter = y.interpreter from hy.interpreter]
    exact congrArg Progress.interpreter h
  have hcontext := congrArg (fun z : Progress σ κ => z.context.toHost) h
  have hhost : t.host = u.host := hx.host.trans (hcontext.trans hy.host.symm)
  rw [withLimit, withLimit, ht.input, hu.input, hinterpreter, hhost]

variable [Screen σ] [Clipboard κ]

/-- After beginnings that lead to the same point but for the limit that is noted, what follows is
interpreted alike. -/
theorem writeAll_withLimit_of_leadsTo (ht : t.AtRest) (hu : u.AtRest) {x y z : Progress σ κ}
    {n : Nat} (hlimit : x.withLimit n = y.withLimit n) (hsame : y.Same z)
    {front front' : List (List Char)} {mid mid' : List Char}
    (hx : t.progress.LeadsTo (front.flatten ++ mid) x)
    (hz : u.progress.LeadsTo (front'.flatten ++ mid') z) (s : List Char)
    (rest : List (List Char)) :
    (t.writeAll (front ++ (mid ++ s) :: rest)).withLimit n =
      (u.writeAll (front' ++ (mid' ++ s) :: rest)).withLimit n := by
  have htrest := (ht.writeAll front).write (mid ++ s)
  have hurest := (hu.writeAll front').write (mid' ++ s)
  have hdone : y.interpreter.TextDone := hsame.interpreter ▸ hz.textDone
  have hright := (hu.same_delivery hz s).trans (hsame.settle_after hdone s).symm
  have hsettle : (x.after s).settle.withLimit n = (y.after s).settle.withLimit n := by
    rw [← Progress.settle_withLimit, ← Progress.settle_withLimit,
      Progress.after_withLimit hlimit]
  have hwrite := htrest.withLimit_eq_of_same hurest (ht.same_delivery hx s) hright hsettle
  rw [writeAll_append, writeAll_append]
  exact writeAll_withLimit htrest hurest hwrite rest

def opened (t : Terminal σ κ) : Terminal σ κ := { t with interpreter.state := .command }

section Opened

variable (h : t.AtRest) (hready : t.state = .ready)
include h hready

omit [Screen σ] [Clipboard κ] in
theorem AtRest.opened : t.opened.AtRest := by
  have hclear := h.tidy.clear (.inl hready)
  refine ⟨h.input, ⟨by simp [Terminal.opened], h.textDone.textRun⟩, ?_⟩
  exact Interpreter.Clear.tidy ⟨hclear.escape, hclear.control, hclear.command, hclear.skipped⟩
    (.inr (.inr h.textDone.textRun))

omit [Screen σ] in
theorem toHost_commandEnd_opened (payload : List Char) :
    (t.opened.progress.commandEnd payload).context.toHost = t.host.command payload := by
  have hempty : t.opened.interpreter.command.payload = .empty t.interpreter.command.payload.limit :=
    (h.tidy.clear (.inl hready)).command
  have hoverflows : t.opened.Overflows payload ↔
      t.host.settings.payloadLimit < payload.length := by
    rw [Overflows, hempty]
    exact or_iff_right Bool.false_ne_true
  unfold Host.command
  split
  · exact toHost_commandEnd_of_overflows (h.opened hready) (hoverflows.mpr ‹_›)
  · rw [toHost_commandEnd_of_not_overflows (h.opened hready) (mt hoverflows.mp ‹_›), hempty]
    rfl

omit [Screen σ] in
theorem interpreter_commandEnd_opened (payload : List Char) :
    ((t.opened.progress.commandEnd payload).withState .ready).interpreter =
      t.interpreter.withLimit t.host.settings.payloadLimit := by
  have hempty : t.interpreter.command.payload.setLimit t.host.settings.payloadLimit =
      .empty t.host.settings.payloadLimit := by
    rw [(h.tidy.clear (.inl hready)).command]
    rfl
  have hlimit : t.interpreter.withLimit t.host.settings.payloadLimit =
      { t.interpreter with command := ⟨.empty t.host.settings.payloadLimit⟩ } := by
    rw [← hempty]
    rfl
  rw [hlimit, Progress.withState, ← hready]
  rfl

/-- A command that is delivered as a whole leads back to where it began, with its effect on the
host. -/
theorem AtRest.writeAll_command {i payload e : List Char} (hi : i ∈ commandIntroducers)
    (hpayload : IsPayload payload) (he : e ∈ stringTerminators) {pieces : List (List Char)}
    (hpieces : pieces.flatten = i ++ (payload ++ e)) :
    t.writeAll pieces =
      ({ t with host := t.host.command payload }).withLimit t.host.settings.payloadLimit := by
  have hidle := h.idle hready
  have hopen := Progress.leadsTo_commandIntroducer (x := t.progress) hidle hi
  have hcollecting : t.opened.interpreter.command.payload.stage = .collecting :=
    (Progress.readsString_command (x := t.progress) hidle).stage
  have hends : t.opened.interpreter.command.payload.stage.Ends payload (payload ++ e) none := by
    rw [hcollecting]
    exact .terminated hpayload he
  have hend := Progress.leadsTo_commandEnd (x := t.opened.progress) rfl hopen.textDone hends
  have hleads : t.progress.LeadsTo pieces.flatten
      ((t.opened.progress.commandEnd payload).withState .ready) := hpieces ▸ hopen.append hend
  have hsame := (same_writeAll h (.refl _) hleads.textless).trans hleads.same
  have hinput : (t.writeAll pieces).input = t.input :=
    (h.writeAll pieces).input.trans h.input.symm
  have hinterpreter : (t.writeAll pieces).interpreter =
      t.interpreter.withLimit t.host.settings.payloadLimit :=
    hsame.interpreter.trans (interpreter_commandEnd_opened h hready payload)
  have hhost : (t.writeAll pieces).host = t.host.command payload :=
    hsame.host.trans (toHost_commandEnd_opened h hready payload)
  calc t.writeAll pieces
      = ⟨(t.writeAll pieces).input, (t.writeAll pieces).interpreter, (t.writeAll pieces).host⟩ :=
        rfl
    _ = ⟨t.input, t.interpreter.withLimit t.host.settings.payloadLimit,
          t.host.command payload⟩ := by rw [hinput, hinterpreter, hhost]

end Opened

/-- The end of a command has the effect of its payload and no other: it is what a command with its
number may do, and nothing if the payload is too long or cannot be read. What follows is then
interpreted as it would be by a new interpreter. -/
theorem Reachable.command_confined (h : t.Reachable) (hstate : t.state = .command)
    {rest whole : List Char} {interrupt : Option Char}
    (hends : t.interpreter.command.payload.stage.Ends rest whole interrupt) :
    ∃ b : Host σ κ, t.host.SameBesideCommands b ∧
      (t.Overflows rest → b = t.host) ∧
      (¬ t.Overflows rest →
        t.host.Executes (t.interpreter.command.payload.chars ++ rest) b) ∧
      ∀ {front : List (List Char)} {mid : List Char} (s : List Char) (more : List (List Char)),
        front.flatten ++ mid = whole →
        (t.writeAll (front ++ (mid ++ s) :: more)).withLimit 0 =
          (({ t with host := b }).fresh.writeAll
            ((interruption interrupt ++ s) :: more)).withLimit 0 := by
  have hrest := h.atRest
  have hleads := Progress.leadsTo_commandEnd (x := t.progress) hstate hrest.textDone hends
  refine ⟨(t.progress.commandEnd rest).context.toHost, ?_, toHost_commandEnd_of_overflows hrest,
    ?_, ?_⟩
  · by_cases hlong : t.Overflows rest
    · rw [toHost_commandEnd_of_overflows hrest hlong]
      exact ⟨rfl, rfl, fun _ _ => rfl⟩
    · rw [toHost_commandEnd_of_not_overflows hrest hlong]
      exact (t.host.executes_applyPayload _).sameBesideCommands
  · intro hshort
    rw [toHost_commandEnd_of_not_overflows hrest hshort]
    exact t.host.executes_applyPayload _
  · intro front mid s more hwhole
    subst hwhole
    -- Both go on from the same point, but for the limit noted and the events.
    have hfresh := atRest_fresh { t with host := (t.progress.commandEnd rest).context.toHost }
    have hnew := Progress.leadsTo_interruption
      (x := ({ t with host := (t.progress.commandEnd rest).context.toHost }).fresh.progress)
      (hfresh.idle rfl) interrupt
    have hlimit := Progress.afterString_commandEnd_withLimit (x := t.progress) hstate
      hrest.textDone hrest.tidy rest interrupt 0
    have hsame : (Progress.afterString ⟨.initial, (t.progress.commandEnd rest).context⟩
        interrupt).Same
        (({ t with host := (t.progress.commandEnd rest).context.toHost }).fresh.progress.afterString
          interrupt) := by
      apply Progress.Same.afterString
      · exact ⟨rfl, rfl⟩
      · exact ⟨by simp [Interpreter.initial], rfl⟩
    have hnone : ∀ c : List Char, c = ([] : List (List Char)).flatten ++ c := fun _ => rfl
    rw [hnone (interruption interrupt)] at hnew
    exact writeAll_withLimit_of_leadsTo hrest hfresh hlimit hsame hleads hnew s more

/-- The rest of a title, with the text after it in the same delivery. -/
theorem command_confined_title :
    let t := (onPage (.empty 80) .standard).write "\x1b]0;ti".toList
    t.Reachable ∧ t.state = .command ∧
      t.interpreter.command.payload.stage.Ends "tle".toList "tle\x07".toList none ∧
      t.title? = none ∧
      ∃ b, t.host.SameBesideCommands b ∧ t.host.Executes "0;title".toList b ∧
        b = t.host.withText .windowTitle "title".toList ∧
        b.store.get? .windowTitle = some "title" ∧
        (t.writeAll [['t'], "le\x07ab".toList]).withLimit 0 =
          (({ t with host := b }).fresh.writeAll ["ab".toList]).withLimit 0 := by
  have hstart : (onPage (.empty 80) .standard).Reachable := .onScreen _ _ _
  have hreachable := hstart.write "\x1b]0;ti".toList
  intro t
  have hstate : t.state = .command := by
    rw [state, show t = _ from write_eq hstart.atRest _]
    rfl
  have hpayload : t.interpreter.command.payload = ⟨"0;ti".toList.toArray, 4,
      Settings.standard.payloadLimit, false, false, none, false⟩ := by
    rw [show t = _ from write_eq hstart.atRest _]
    rfl
  have hends : t.interpreter.command.payload.stage.Ends "tle".toList "tle\x07".toList none := by
    rw [hpayload]
    exact .terminated (e := [bel]) (by decide) (by decide)
  have hshort : ¬ t.Overflows "tle".toList := by
    rw [Overflows, hpayload, show t = _ from write_eq hstart.atRest _]
    decide
  obtain ⟨b, hbeside, -, hexecutes, hnext⟩ := hreachable.command_confined hstate hends
  have hpieces : [['t']].flatten ++ "le\x07".toList = "tle\x07".toList := rfl
  have hexecutes' := hexecutes hshort
  rw [hpayload] at hexecutes'
  have htitle : t.title? = none := by
    rw [show t = _ from write_eq hstart.atRest _]
    rfl
  have hlimit : t.host.settings = .standard := by
    rw [show t = _ from write_eq hstart.atRest _]
    rfl
  have hb : b = t.host.withText .windowTitle "title".toList :=
    hexecutes'.eq_withText (by rw [hlimit]; decide)
  refine ⟨hreachable, hstate, hends, htitle, b, hbeside, hexecutes', hb, ?_,
    hnext "ab".toList [] hpieces⟩
  rw [hb]
  exact Store.get?_set_self _ _ _

end Terminal

end ControlStream
