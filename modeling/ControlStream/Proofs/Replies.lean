import ControlStream.Proofs.ColorAnswers
import ControlStream.Proofs.History

/-!
# Replies

A program that sends a stream decides which replies it gets, and they come back to it as if they
had been typed. No reply carries anything of the stream but which color was asked for: a reply is an
answer that spells the color that was in force when it was asked for.

When that was is said in terms of the stream. If the stream is cut off just before a query and the
command is ended there, the reply is not given; if it is cut off just after the query, the reply is
the last one, and the colors are the same at both points.

## Main definitions

* `AnsweredBetween`: one more reply is given between the ends of two parts of a text.
* `AnswersWithin`: all replies that were added are answers given between the ends of two parts.
* `Likeness.besideReplies`: hosts that are the same but for replies and whether queries are
  answered.

## Main statements

* `Host.answersWithin_applyPayload`: the replies to a payload.
* `Progress.answersWithin_after`: the replies to a stream.
* `Terminal.Driven.replies_confined`: every reply is the answer to a query, and whether there are
  replies makes no difference to anything else.
-/

namespace ControlStream

open ControlChar

variable {σ κ : Type}

/-! ### Answers at the ends of parts -/

def Host.pendingReplies (a : Host σ κ) : List String := a.replies.pending.toList

/-- Between the ends of two texts, of which the first is a part of the second, there is one more
reply: the answer to a query, with the color that is in force at both. -/
structure AnsweredBetween {α : Type} (run : List α → Host σ κ) (front part : List α)
    (old : List String) (reply : String) (query : ColorQuery) : Prop where
  begins : front <+: part
  pending_front : (run front).pendingReplies = old
  pending_part : (run part).pendingReplies = old ++ [reply]
  palette : (run front).store.palette = (run part).store.palette
  answer : reply = query.answer (run part).store.palette

/-- Replies were added, and each of them is the answer to a query at the end of a part of `s`. -/
def AnswersWithin {α : Type} (run : List α → Host σ κ) (s : List α) (old new : List String) :
    Prop :=
  ∃ added, new = old ++ added ∧
    ∀ before reply after, added = before ++ reply :: after →
      ∃ (front part : List α) (query : ColorQuery), part <+: s ∧
        AnsweredBetween run front part (old ++ before) reply query

/-- At most one reply was added, the answer with a color in force. -/
def Host.AnswersOnce (a b : Host σ κ) : Prop :=
  b.pendingReplies = a.pendingReplies ∨
    a.store.palette = b.store.palette ∧
      ∃ query : ColorQuery, b.pendingReplies = a.pendingReplies ++ [query.answer b.store.palette]

namespace AnswersWithin

variable {α β : Type} {run : List α → Host σ κ} {s : List α} {old mid new : List String}

theorem of_eq (run : List α → Host σ κ) (s : List α) (h : new = old) :
    AnswersWithin run s old new := by
  refine ⟨[], by rw [h, List.append_nil], fun before reply after hadded => ?_⟩
  cases before <;> cases hadded

/-- At most one query stands after the beginning. -/
theorem of_answersOnce {front : List α} (hfront : front <+: s)
    (h : (run front).AnswersOnce (run s)) :
    AnswersWithin run s (run front).pendingReplies (run s).pendingReplies := by
  rcases h with h | ⟨hpalette, query, h⟩
  · exact .of_eq run s h
  · refine ⟨_, h, fun before reply after hadded => ?_⟩
    cases before with
    | nil =>
      cases hadded
      exact ⟨front, s, query, List.prefix_refl s,
        ⟨hfront, (List.append_nil _).symm, by rw [List.append_nil]; exact h, hpalette, rfl⟩⟩
    | cons first before =>
      have hlength := congrArg List.length hadded
      simp at hlength

theorem trans (h : AnswersWithin run s old mid) (h' : AnswersWithin run s mid new) :
    AnswersWithin run s old new := by
  obtain ⟨first, rfl, hfirst⟩ := h
  obtain ⟨second, rfl, hsecond⟩ := h'
  refine ⟨first ++ second, List.append_assoc _ _ _, fun before reply after hadded => ?_⟩
  have hlater : ∀ between, before = first ++ between → second = between ++ reply :: after →
      ∃ (front part : List α) (query : ColorQuery), part <+: s ∧
        AnsweredBetween run front part (old ++ before) reply query := by
    rintro between rfl hbetween
    rw [← List.append_assoc]
    exact hsecond between reply after hbetween
  rcases List.append_eq_append_iff.mp hadded with ⟨rest, hbefore, hrest⟩ | ⟨rest, hfirst', hrest⟩
  · exact hlater rest hbefore hrest
  · cases rest with
    | nil => exact hlater [] (by simpa using hfirst'.symm) (by simpa using hrest.symm)
    | cons next rest =>
      obtain ⟨rfl, -⟩ := List.cons.inj hrest
      exact hfirst before reply rest hfirst'

/-- Parts of one text correspond to parts of another. -/
theorem map {run' : List β → Host σ κ} {t : List β} (h : AnswersWithin run s old new)
    (hparts : ∀ part, part <+: s → ∃ part', part' <+: t ∧ run' part' = run part ∧
      ∀ front, front <+: part → ∃ front', front' <+: part' ∧ run' front' = run front) :
    AnswersWithin run' t old new := by
  obtain ⟨added, hnew, hadded⟩ := h
  refine ⟨added, hnew, fun before reply after heq => ?_⟩
  obtain ⟨front, part, query, hpart, hanswered⟩ := hadded before reply after heq
  obtain ⟨part', hpart', hrun, hfronts⟩ := hparts part hpart
  obtain ⟨front', hfront', hrunFront⟩ := hfronts front hanswered.begins
  refine ⟨front', part', query, hpart', ⟨hfront', ?_, ?_, ?_, ?_⟩⟩
  · rw [hrunFront, hanswered.pending_front]
  · rw [hrun, hanswered.pending_part]
  · rw [hrun, hrunFront, hanswered.palette]
  · rw [hrun]
    exact hanswered.answer

/-- More may follow. -/
theorem extend {t : List α} (h : AnswersWithin run s old new) (hst : s <+: t) :
    AnswersWithin run t old new :=
  h.map fun part hpart => ⟨part, hpart.trans hst, rfl, fun front hfront => ⟨front, hfront, rfl⟩⟩

end AnswersWithin

/-! ### Replies to a payload -/

theorem Host.answersOnce_withAnswers (a : Host σ κ) (query : ColorQuery) :
    a.AnswersOnce (a.withAnswers (a.settings.answers (query.answer a.store.palette))) := by
  unfold Settings.answers
  split
  · exact .inr ⟨rfl, query, by simp [pendingReplies, withAnswers]⟩
  · exact .inl (by simp [pendingReplies, withAnswers])

namespace Context

variable (ctx : Context σ κ)

theorem answersOnce_indexedColor (i : UInt8) (spec : List Char) :
    ctx.toHost.AnswersOnce (ctx.indexedColor i spec).toHost := by
  unfold indexedColor
  split
  · rw [answerColor_eq_withAnswers]
    exact ctx.toHost.answersOnce_withAnswers (.indexed i)
  · split <;> exact .inl rfl

theorem answersOnce_defaultColor (which : DefaultColor) (spec : List Char) :
    ctx.toHost.AnswersOnce (ctx.defaultColor which spec).toHost := by
  unfold defaultColor
  split
  · exact .inl rfl
  · simp only
    split
    · rw [answerColor_eq_withAnswers]
      exact ctx.toHost.answersOnce_withAnswers (.default which)
    · rw [answerColor_eq_withAnswers]
      exact ctx.toHost.answersOnce_withAnswers (.default which)

/-- Every answer to a command for indexed colors is given at the end of a pair of fields. -/
theorem answersWithin_indexedColors (fields : List (List Char)) :
    AnswersWithin (fun part => (ctx.indexedColors part).toHost) fields ctx.toHost.pendingReplies
      (ctx.indexedColors fields).toHost.pendingReplies := by
  induction ctx, fields using indexedColors.induct with
  | case1 ctx index spec fields hindex =>
    have hnone : ctx.indexedColors (index :: spec :: fields) =
        ctx.log (.invalidIndex 4 (String.ofList index)) := by simp only [indexedColors, hindex]
    rw [hnone]
    exact .of_eq _ _ rfl
  | case2 ctx index spec fields i hindex ih =>
    have hpair : ∀ part, ctx.indexedColors (index :: spec :: part) =
        (ctx.indexedColor i spec).indexedColors part := by
      intro part
      simp only [indexedColors, hindex]
    have hone : ctx.indexedColors [index, spec] = ctx.indexedColor i spec := hpair []
    have honce : ctx.toHost.AnswersOnce (ctx.indexedColors [index, spec]).toHost :=
      hone ▸ ctx.answersOnce_indexedColor i spec
    have hnil : ([] : List (List Char)) <+: [index, spec] := List.nil_prefix
    have hfirst : AnswersWithin (fun part => (ctx.indexedColors part).toHost) [index, spec]
        ctx.toHost.pendingReplies (ctx.indexedColor i spec).toHost.pendingReplies :=
      hone ▸ .of_answersOnce hnil honce
    have hcons : ∀ {front part : List (List Char)}, front <+: part →
        index :: spec :: front <+: index :: spec :: part := fun h =>
      List.cons_prefix_cons.mpr ⟨rfl, List.cons_prefix_cons.mpr ⟨rfl, h⟩⟩
    have hrest : AnswersWithin (fun part => (ctx.indexedColors part).toHost)
        (index :: spec :: fields) (ctx.indexedColor i spec).toHost.pendingReplies
        (ctx.indexedColors (index :: spec :: fields)).toHost.pendingReplies := by
      rw [hpair]
      exact ih.map fun part hpart => ⟨index :: spec :: part, hcons hpart, by rw [hpair],
        fun front hfront => ⟨index :: spec :: front, hcons hfront, by rw [hpair]⟩⟩
    exact (hfirst.extend ⟨fields, rfl⟩).trans hrest
  | case3 fields ctx hfields =>
    rw [indexedColors.eq_2 _ _ hfields]
    exact .of_eq _ _ rfl

variable [Clipboard κ]

/-- A command that is neither for indexed nor for default colors adds no replies. -/
theorem replies_apply {command : Command} (hindexed : command ≠ .indexedColors)
    (hdefault : ∀ which, command ≠ .defaultColor which) (argument : List Char) :
    (command.apply argument ctx).replies = ctx.replies := by
  cases command with
  | windowTitle | iconTitle | workdir | hyperlink | resetDefault => rfl
  | indexedColors => exact absurd rfl hindexed
  | defaultColor which => exact absurd rfl (hdefault which)
  | selection =>
    obtain ⟨clipboard, heq⟩ := ctx.exists_clipboard_selection argument
    exact (congrArg Host.replies heq).trans rfl
  | resetIndexed =>
    simp only [Command.apply]
    split
    · rfl
    · obtain ⟨p, -, heq⟩ := ctx.exists_withPalette_foldl_resetIndexed (fieldsOf ';' argument)
      exact (congrArg Host.replies heq).trans rfl

end Context

namespace Host

variable [Clipboard κ] (a : Host σ κ)

theorem applyPayload_of_not_mem {payload : List Char} (h : ';' ∉ payload) :
    a.applyPayload payload = a := by
  rw [applyPayload, Context.applyPayload, cutAt?_eq_none_iff.mpr h]
  rfl

/-- The fields of an argument end where parts of the payload end. -/
theorem answersWithin_fields {selector argument : List Char} (hselector : ';' ∉ selector)
    (happly : ∀ {part}, part <+: argument → a.applyPayload (selector ++ ';' :: part) =
      ((Context.mk a #[]).indexedColors (fieldsOf ';' part)).toHost) :
    AnswersWithin a.applyPayload (selector ++ ';' :: argument) a.pendingReplies
      (a.applyPayload (selector ++ ';' :: argument)).pendingReplies := by
  have hnone := a.applyPayload_of_not_mem hselector
  have hcons : ∀ {front part}, front <+: part →
      selector ++ ';' :: front <+: selector ++ ';' :: part := fun h =>
    (List.prefix_append_right_inj _).mpr (List.cons_prefix_cons.mpr ⟨rfl, h⟩)
  have hfields : ∀ {part fields}, part <+: argument → fields <+: fieldsOf ';' part →
      ∃ front, front <+: selector ++ ';' :: part ∧
        a.applyPayload front = ((Context.mk a #[]).indexedColors fields).toHost := by
    intro part fields hpart hfields
    by_cases hne : fields = []
    · subst hne
      exact ⟨selector, List.prefix_append _ _, hnone⟩
    · obtain ⟨front, hfront, rfl⟩ := exists_prefix_of_fieldsOf hfields hne
      exact ⟨selector ++ ';' :: front, hcons hfront, happly (hfront.trans hpart)⟩
  rw [happly (List.prefix_refl argument)]
  refine (Context.answersWithin_indexedColors (Context.mk a #[]) _).map fun fields hwhole => ?_
  by_cases hne : fields = []
  · subst hne
    refine ⟨selector, List.prefix_append _ _, hnone, fun front hfront => ?_⟩
    rw [List.prefix_nil.mp hfront]
    exact ⟨selector, List.prefix_refl selector, hnone⟩
  · obtain ⟨part, hpart, rfl⟩ := exists_prefix_of_fieldsOf hwhole hne
    exact ⟨selector ++ ';' :: part, hcons hpart, happly hpart, fun _ => hfields hpart⟩

/-- Every reply to a payload is the answer to a query at the end of a part of it. -/
theorem answersWithin_applyPayload (payload : List Char) :
    AnswersWithin a.applyPayload payload a.pendingReplies
      (a.applyPayload payload).pendingReplies := by
  rcases a.applyPayload_cases payload with
    hnothing | ⟨selector, argument, command, rfl, hselector, hshort, hcommand⟩
  · exact .of_eq _ _ (congrArg pendingReplies hnothing)
  -- The command is the same for a part of the argument, which is not longer than all of it.
  have happly : ∀ {part}, part <+: argument → a.applyPayload (selector ++ ';' :: part) =
      (command.apply part (Context.mk a #[])).toHost := by
    intro part hpart
    have hlength := hpart.length_le
    refine a.applyPayload_eq_apply hselector (hshort.imp_right fun hle => ?_) hcommand
    rw [List.length_append, List.length_cons] at hle ⊢
    omega
  have hwhole := happly (List.prefix_refl argument)
  by_cases hindexed : command = .indexedColors
  · subst hindexed
    exact a.answersWithin_fields hselector happly
  by_cases hdefault : ∃ which, command = .defaultColor which
  · obtain ⟨which, rfl⟩ := hdefault
    have hnil : a.applyPayload [] = a := a.applyPayload_of_not_mem List.not_mem_nil
    have honce :
        (a.applyPayload []).AnswersOnce (a.applyPayload (selector ++ ';' :: argument)) := by
      rw [hnil, hwhole]
      exact Context.answersOnce_defaultColor (Context.mk a #[]) which argument
    have hwithin := AnswersWithin.of_answersOnce List.nil_prefix honce
    rwa [hnil] at hwithin
  · refine .of_eq _ _ ?_
    have hreplies := Context.replies_apply (Context.mk a #[]) hindexed
      (not_exists.mp hdefault) argument
    rw [pendingReplies, hwhole, hreplies]
    rfl

end Host

/-! ### Replies to a stream -/

namespace Payload

variable {p : Payload} {c : Char}

/-- The character that ends a string changes nothing else of it. -/
theorem feed_of_ended (hopen : p.isComplete = false) {interrupt : Option Char}
    (hended : (p.feed c).stage = .ended interrupt) :
    (p.feed c).chars = p.chars ∧ (p.feed c).overflowed = p.overflowed := by
  have hcomplete : (p.feed c).isComplete = true := isComplete_iff.mpr ⟨_, hended⟩
  unfold feed at hcomplete ⊢
  rw [if_neg (by simp [hopen])] at hcomplete ⊢
  split
  · exact ⟨rfl, rfl⟩
  · rename_i hescaped
    rw [if_neg hescaped] at hcomplete
    split
    · exact ⟨rfl, rfl⟩
    · rename_i hend
      rw [if_neg hend] at hcomplete
      -- No other character ends a string.
      have hkeep : (p.keep c).isComplete = p.isComplete := by
        unfold keep
        split <;> rfl
      split at hcomplete
      · rw [hopen] at hcomplete
        cases hcomplete
      · rw [hkeep, hopen] at hcomplete
        cases hcomplete

end Payload

namespace Progress

variable [Screen σ] [Clipboard κ] {x x₀ : Progress σ κ}

/-- While a command is being read, a character adds replies only if it ends the command and all of
it was kept, and then they are the replies to the payload. -/
theorem replies_tick_command (hstate : x.interpreter.state = .command)
    (hopen : x.interpreter.command.payload.isComplete = false) (c : Char) :
    (x.tick c).context.replies = x.context.replies ∨
      x.interpreter.command.payload.overflowed = false ∧
        (x.tick c).context.replies =
          (x.context.toHost.applyPayload x.interpreter.command.payload.chars).replies := by
  have hended := @Payload.feed_of_ended
    (x.interpreter.command.payload.setLimit x.context.settings.payloadLimit) c hopen
  rw [tick, hstate]
  simp only [tickCommand]
  split
  · obtain ⟨hchars, hoverflow⟩ := hended ‹_›
    rw [(sameCommands_afterString _ _).silent.replies]
    unfold CommandString.finish
    split
    · exact .inl rfl
    · rename_i hkept
      refine .inr ⟨?_, ?_⟩
      · rw [hoverflow] at hkept
        exact Bool.eq_false_iff.mpr hkept
      · rw [← toHost_applyPayload, hchars]
        rfl
  · exact .inl rfl

/-- The replies to the payload of a command that is being read are answers at the ends of parts of
the stream: the command could have ended there. -/
theorem BeganAt.answersWithin {settings : Settings}
    (hsettings : (Likeness.ofSettings σ κ settings).Alike x₀ x₀) {s w : List Char}
    (h : x₀.BeganAt s w)
    (hpayload : (x₀.after s).interpreter.command.payload.Within settings.payloadLimit) :
    AnswersWithin (fun part => (x₀.after (part ++ [bel])).context.toHost) s
      (x₀.after s).context.toHost.pendingReplies
      ((x₀.after s).context.toHost.applyPayload
        (x₀.after s).interpreter.command.payload.chars).pendingReplies := by
  have hlength := hpayload.length_le
  rw [hpayload.length_eq] at hlength
  have hrun : ∀ {part}, part <+: (x₀.after s).interpreter.command.payload.chars →
      (x₀.after (w ++ part ++ [bel])).context.toHost =
        (x₀.after s).context.toHost.applyPayload part := by
    intro part hpart
    exact h.toHost_after_bel hsettings hpart (Nat.le_trans hpart.length_le hlength)
  have hcons : ∀ {front part : List Char}, front <+: part → w ++ front <+: w ++ part :=
    (List.prefix_append_right_inj w).mpr
  refine (Host.answersWithin_applyPayload _ _).map fun part hpart => ?_
  refine ⟨w ++ part, (hcons hpart).trans h.prefix_append_chars, hrun hpart, ?_⟩
  exact fun front hfront => ⟨w ++ front, hcons hfront, hrun (hfront.trans hpart)⟩

/-- Every reply to a stream is the answer to a query that stands in it. -/
theorem answersWithin_after {settings : Settings}
    (hsettings : (Likeness.ofSettings σ κ settings).Alike x₀ x₀)
    (htidy : x₀.interpreter.Tidy settings.payloadLimit) (hready : x₀.interpreter.state ≠ .command)
    (s : List Char) :
    AnswersWithin (fun part => (x₀.after (part ++ [bel])).context.toHost) s
      x₀.context.toHost.pendingReplies (x₀.after s).context.toHost.pendingReplies := by
  -- Only the character that ends a command adds replies.
  induction s using List.reverseRecOn with
  | nil => exact .of_eq _ _ rfl
  | append_singleton s c ih =>
    have htick : x₀.after (s ++ [c]) = (x₀.after s).tick c := after_append x₀ s [c]
    have hpayload := (tidy_after hsettings htidy s).payload
    refine (ih.extend (List.prefix_append s [c])).trans ?_
    rw [htick]
    by_cases hcommand : (x₀.after s).interpreter.state = .command
    · rcases replies_tick_command hcommand hpayload.isComplete c with
        hreplies | ⟨hkept, hreplies⟩
      · exact .of_eq _ _ (congrArg (·.pending.toList) hreplies)
      · obtain ⟨w, hw⟩ := exists_beganAt hsettings htidy hready hcommand hkept
        have hpending : ((x₀.after s).tick c).context.toHost.pendingReplies =
            ((x₀.after s).context.toHost.applyPayload
              (x₀.after s).interpreter.command.payload.chars).pendingReplies :=
          congrArg (·.pending.toList) hreplies
        rw [hpending]
        exact (hw.answersWithin hsettings hpayload).extend (List.prefix_append s [c])
    · exact .of_eq _ _ (congrArg (·.pending.toList) (sameCommands_tick hcommand c).silent.replies)

end Progress

/-! ### Hosts that differ in their replies -/

namespace Settings

/-- The same settings, whose queries are answered or not. -/
def answering (settings : Settings) (enabled : Bool) : Settings :=
  { settings with answerColorQueries := enabled }

variable (settings : Settings) (enabled : Bool)

theorem commandLimit_answering :
    settings.commandLimit = (settings.answering enabled).commandLimit := rfl

theorem clipboardLimit_answering :
    settings.clipboardLimit = (settings.answering enabled).clipboardLimit := rfl

/-- Copying has nothing to do with queries. -/
theorem copied_answering [Clipboard κ] {c d : κ} (text : String) (h : c = d) :
    settings.copied c text = (settings.answering enabled).copied d text := by
  rw [h]
  rfl

/-- Nothing is added to replies if queries are not answered. -/
theorem answered_answering {q old : Replies} (answer : String)
    (h : enabled = false → q = old) (hquiet : enabled = false) :
    (settings.answering enabled).answered q answer = old := by
  rw [answered, answering, if_neg (by simp [hquiet])]
  exact h hquiet

end Settings

/-- The same host with other replies, whose queries are answered or not. -/
def Host.answering (a : Host σ κ) (enabled : Bool) (replies : Replies) : Host σ κ :=
  { a with replies, settings := a.settings.answering enabled }

/-- What hosts have in common that differ at most in their replies and in whether queries are
answered. If they are not, the replies of the second host are still the old ones. -/
def Likeness.besideReplies (σ κ : Type) [Screen σ] [Clipboard κ] (settings : Settings)
    (enabled : Bool) (old : Replies) : Likeness σ σ κ κ where
  ignored _ := False
  screen s t := s = t
  clipboard c d := c = d
  replies _ q := enabled = false → q = old
  left := settings
  right := settings.answering enabled
  graphicSet_not_ignored := not_false
  insertMode_not_ignored := not_false
  commandLimit_eq := settings.commandLimit_answering enabled
  clipboardLimit_eq := settings.clipboardLimit_answering enabled
  screen_on := Call.on_congr
  replies_answered answer h := settings.answered_answering enabled answer h
  clipboard_copied := settings.copied_answering enabled

theorem Host.answering_of_besideReplies [Screen σ] [Clipboard κ] {settings : Settings}
    {enabled : Bool} {old : Replies} {a b : Host σ κ}
    (h : (Likeness.besideReplies σ κ settings enabled old).Hosts a b) :
    b = a.answering enabled b.replies := by
  obtain ⟨store, screen, clipboard, replies, settingsA⟩ := a
  obtain ⟨store', screen', clipboard', replies', settingsB⟩ := b
  obtain ⟨hstore, hscreen, hclipboard, -, hleft, hright⟩ := h
  cases hstore.eq
  cases hscreen
  cases hclipboard
  cases hleft
  cases hright
  rfl

namespace Terminal

def answering (t : Terminal σ κ) (enabled : Bool) (replies : Replies) : Terminal σ κ :=
  { t with host := t.host.answering enabled replies }

variable [Screen σ] [Clipboard κ] {t : Terminal σ κ}

theorem AtRest.pendingReplies_write (h : t.AtRest) (s : List Char) :
    (t.write s).host.pendingReplies = (t.progress.after s).context.toHost.pendingReplies := by
  rw [write_eq h]
  exact congrArg (·.pending.toList) (t.progress.after s).sameCommands_settle.silent.replies

theorem AtRest.palette_write (h : t.AtRest) (s : List Char) :
    (t.write s).store.palette = (t.progress.after s).context.store.palette := by
  rw [write_eq h]
  simp only [store, Progress.settle, TextRun.flush]
  split <;> simp

/-- Whether queries are answered, and what was answered, makes no difference to anything but the
replies, and if they are not answered there are no more replies. -/
theorem AtRest.writeAll_answering (h : t.AtRest) (enabled : Bool) (replies : Replies)
    (pieces : List (List Char)) :
    ∃ q, (t.answering enabled replies).writeAll pieces = (t.writeAll pieces).answering enabled q ∧
      (enabled = false → q = replies) := by
  have hlike : (Likeness.besideReplies σ κ t.host.settings enabled replies).Terminals t
      (t.answering enabled replies) :=
    ⟨h, ⟨h.input, h.textDone, h.tidy⟩, rfl, ⟨.refl _ _, rfl, rfl, fun _ => rfl, rfl, rfl⟩⟩
  have hpieces := hlike.writeAll pieces
  have hhost := Host.answering_of_besideReplies hpieces.host
  exact ⟨_, hpieces.eq_mk.trans (congrArg (Terminal.mk _ _) hhost), hpieces.host.replies⟩

theorem AtRest.replies_writeAll (h : t.AtRest) (hquiet : t.host.settings.answerColorQueries = false)
    (pieces : List (List Char)) : (t.writeAll pieces).host.replies = t.host.replies := by
  have hself : t.answering t.host.settings.answerColorQueries t.host.replies = t := rfl
  obtain ⟨q, hpieces, hreplies⟩ := h.writeAll_answering _ t.host.replies pieces
  rw [hself] at hpieces
  rw [hpieces]
  exact hreplies hquiet

/-- Every reply is the answer to a query at the end of a part of the stream: just before it the
reply is not there, just after it the reply is the last one, and it spells the color that is in
force at both points. There are no replies if queries are not answered; and whether they are, and
what was answered, makes no difference to anything else. -/
theorem Driven.replies_confined {settings : Settings} (h : t.Driven settings)
    (hstate : t.state ≠ .command) (pieces : List (List Char)) :
    (∃ added, (t.writeAll pieces).host.pendingReplies = t.host.pendingReplies ++ added ∧
      (settings.answerColorQueries = false → added = []) ∧
      ∀ before reply after, added = before ++ reply :: after →
        ∃ (front part : List Char) (query : ColorQuery) (c : Rgb),
          front <+: part ∧ part <+: pieces.flatten ∧
          (t.write (front ++ [bel])).host.pendingReplies = t.host.pendingReplies ++ before ∧
          (t.write (part ++ [bel])).host.pendingReplies =
            t.host.pendingReplies ++ (before ++ [reply]) ∧
          query.color (t.write (front ++ [bel])).store.palette = .ofRgb c ∧
          query.color (t.write (part ++ [bel])).store.palette = .ofRgb c ∧
          reply.toList = [esc, ']'] ++ (query.selector.toList ++ ';' :: c.spelling ++ [bel])) ∧
    ∀ (enabled : Bool) (replies : Replies), ∃ q,
      (t.answering enabled replies).writeAll pieces = (t.writeAll pieces).answering enabled q := by
  have hrest := h.atRest
  have hsettings : t.host.settings = settings := h.settings_eq
  refine ⟨?_, fun enabled replies =>
    (hrest.writeAll_answering enabled replies pieces).imp fun _ => And.left⟩
  have hflatten : pieces.flatten = [pieces.flatten].flatten := List.flatten_singleton.symm
  have hsame := (sameBesideScreen_of_flatten_eq hrest hflatten).1.replies
  have hwhole : (t.writeAll pieces).host.pendingReplies =
      (t.progress.after pieces.flatten).context.toHost.pendingReplies :=
    (congrArg (·.pending.toList) hsame).trans (hrest.pendingReplies_write _)
  obtain ⟨added, hadded, hanswers⟩ := Progress.answersWithin_after
    (Progress.alike_ofSettings (x := t.progress) hrest.textDone) hrest.tidy hstate pieces.flatten
  refine ⟨added, hwhole.trans hadded, fun hquiet => ?_, fun before reply after hreply => ?_⟩
  · have hreplies := hrest.replies_writeAll (by rw [hsettings, hquiet]) pieces
    have hpending : t.host.pendingReplies = t.host.pendingReplies ++ added :=
      (congrArg (·.pending.toList) hreplies).symm.trans (hwhole.trans hadded)
    exact List.self_eq_append_right.mp hpending
  · obtain ⟨front, part, query, hpart, hanswered⟩ := hanswers before reply after hreply
    have hcolor : query.color (t.write (part ++ [bel])).store.palette =
        .ofRgb (query.color (t.write (part ++ [bel])).store.palette).toRgb := by
      rw [Color.ofRgb_toRgb, query.masked_color (h.write _).masked]
    have hanswer : reply = query.answer (t.write (part ++ [bel])).store.palette := by
      rw [hrest.palette_write]
      exact hanswered.answer
    have hpalette : (t.write (front ++ [bel])).store.palette =
        (t.write (part ++ [bel])).store.palette := by
      rw [hrest.palette_write, hrest.palette_write]
      exact hanswered.palette
    refine ⟨front, part, query, _, hanswered.begins, hpart, ?_, ?_, ?_, hcolor, ?_⟩
    · rw [hrest.pendingReplies_write]
      exact hanswered.pending_front
    · rw [hrest.pendingReplies_write, ← List.append_assoc]
      exact hanswered.pending_part
    · rw [hpalette]
      exact hcolor
    · rw [hanswer]
      exact toList_colorAnswer _ _

/-- A color that is set and asked for in one command, which is cut in two. -/
theorem replies_confined_indexed :
    let t := onPage (.empty 80) .standard
    let pieces := ["\x1b]4;1;#0102".toList, "03;1;?\x07".toList]
    t.Driven .standard ∧ t.state ≠ .command ∧
      (t.writeAll pieces).host.pendingReplies = ["\x1b]4;1;rgb:0101/0202/0303\x07"] ∧
      ∃ (part : List Char) (query : ColorQuery) (c : Rgb), part <+: pieces.flatten ∧
        (t.write (part ++ [bel])).host.pendingReplies = ["\x1b]4;1;rgb:0101/0202/0303\x07"] ∧
        query.color (t.write (part ++ [bel])).store.palette = .ofRgb c ∧
        "\x1b]4;1;rgb:0101/0202/0303\x07".toList =
          [esc, ']'] ++ (query.selector.toList ++ ';' :: c.spelling ++ [bel]) := by
  have hdriven : (onPage (.empty 80) .standard).Driven .standard := .onScreen _ _
  intro t pieces
  have hstate : t.state ≠ .command := by decide
  have hreplies : (t.writeAll pieces).host.pendingReplies =
      ["\x1b]4;1;rgb:0101/0202/0303\x07"] := by
    have hflatten : pieces.flatten = ["\x1b]4;1;#010203;1;?\x07".toList].flatten := rfl
    have hsame := (sameBesideScreen_of_flatten_eq hdriven.atRest hflatten).1.replies
    rw [Host.pendingReplies, hsame]
    refine (hdriven.atRest.pendingReplies_write _).trans ?_
    decide +kernel
  obtain ⟨⟨added, hadded, -, hanswers⟩, -⟩ := hdriven.replies_confined hstate pieces
  have hnone : t.host.pendingReplies = [] := rfl
  rw [hreplies, hnone, List.nil_append] at hadded
  obtain ⟨front, part, query, c, -, hpart, -, hpending, -, hcolor, hreply⟩ :=
    hanswers [] _ [] hadded.symm
  exact ⟨hdriven, hstate, hreplies, part, query, c, hpart, hpending, hcolor, hreply⟩

end Terminal

end ControlStream
