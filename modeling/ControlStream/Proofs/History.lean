import Mathlib.Data.List.Induction
import ControlStream.Proofs.Commands

/-!
# Where a command began

A command that is being read began somewhere in the stream, and all that was read since is its
payload. Nothing was done to the host meanwhile, so the stream could as well have ended the command
earlier, with a part of its payload.

## Main definitions

* `Progress.SameCommands`: the same command is being read, and neither the replies nor the
  clipboard have changed.
* `Progress.BeganAt`: the command that is being read began after a part of the stream.

## Main statements

* `Progress.sameCommands_tick`: nothing but commands adds replies or copies anything.
* `Progress.exists_beganAt`: a command that is being read began somewhere.
* `Progress.BeganAt.toHost_after_bel`: what would have become of the host if the command had ended
  earlier.
-/

namespace ControlStream

open ControlChar

/-! ### Payloads that stay open -/

namespace Payload

variable {p : Payload} {c : Char}

/-- A character that leaves a payload open and does not overflow it is kept, unless it is ESC. -/
theorem feed_of_collecting (hstage : p.stage = .collecting)
    (hopen : (p.feed c).isComplete = false) (hkept : (p.feed c).overflowed = false) :
    c = esc ∧ (p.feed c).stage = .escaped ∧ (p.feed c).chars = p.chars ∨
      (c ≠ bel ∧ c ≠ st ∧ c ≠ esc) ∧ (p.feed c).stage = .collecting ∧
        (p.feed c).chars = p.chars ++ [c] := by
  by_cases hend : c = bel ∨ c = st
  · rw [feed_of_terminator hstage hend] at hopen
    cases hopen
  · by_cases hesc : c = esc
    · subst hesc
      refine .inl ⟨rfl, stage_feed_esc hstage, ?_⟩
      rw [feed_esc hstage]
      rfl
    · rw [not_or] at hend
      have hplain : c ≠ bel ∧ c ≠ st ∧ c ≠ esc := ⟨hend.1, hend.2, hesc⟩
      rw [feed_of_plain hstage hplain] at hkept ⊢
      refine .inr ⟨hplain, (stage_keep p c).trans hstage, ?_⟩
      unfold keep at hkept ⊢
      split at hkept
      · rw [if_pos ‹_›]
        simp [chars]
      · cases hkept

/-- What was lost stays lost. -/
theorem overflowed_of_feed (h : (p.feed c).overflowed = false) : p.overflowed = false := by
  unfold feed keep at h
  repeat' split at h
  all_goals first | exact h | cases h

end Payload

variable {σ κ : Type}

/-! ### Nothing but commands adds replies or copies anything -/

/-- No replies were added and nothing was copied. -/
structure Context.Silent (a b : Context σ κ) : Prop where
  replies : b.replies = a.replies
  clipboard : b.clipboard = a.clipboard

namespace Context

theorem Silent.trans {a b c : Context σ κ} (h : a.Silent b) (h' : b.Silent c) : a.Silent c :=
  ⟨h'.replies.trans h.replies, h'.clipboard.trans h.clipboard⟩

variable [Screen σ] (ctx : Context σ κ)

theorem silent_executeControl (c : Char) : ctx.Silent (ctx.executeControl c) := by
  unfold executeControl
  split
  · exact ⟨rfl, rfl⟩
  · split
    · exact ⟨rfl, rfl⟩
    · split <;> exact ⟨rfl, rfl⟩

theorem silent_finishControl (s : ControlSequence) (c : Char) : ctx.Silent (s.finish c ctx) := by
  have hfold : ∀ (f : Context σ κ → Nat → Context σ κ),
      (∀ (ctx : Context σ κ) mode, ctx.Silent (f ctx mode)) →
        ∀ (modes : List Nat) (ctx : Context σ κ), ctx.Silent (modes.foldl f ctx) := by
    intro f hf modes
    induction modes with
    | nil => exact fun _ => ⟨rfl, rfl⟩
    | cons mode modes ih => exact fun ctx => (hf ctx mode).trans (ih (f ctx mode))
  simp only [ControlSequence.finish]
  split
  · refine hfold _ (fun ctx mode => ?_) _ _
    unfold ControlSequence.setMode
    split <;> exact ⟨rfl, rfl⟩
  · split
    · refine hfold _ (fun ctx mode => ?_) _ _
      unfold ControlSequence.setPrivateMode
      split <;> exact ⟨rfl, rfl⟩
    · exact ⟨rfl, rfl⟩

theorem silent_control (s : ControlSequence) (c : Char) :
    ctx.Silent (s.process c ctx).context := by
  rw [s.process_eq_step]
  cases s.role c with
  | introducer | canceller | filler | malformedFinal | overrun | accepted => exact ⟨rfl, rfl⟩
  | executed => exact ctx.silent_executeControl c
  | final => exact ctx.silent_finishControl s c

theorem silent_escape (e : EscapeSequence) (c : Char) :
    ctx.Silent (e.process c ctx).context := by
  have hfinish : ctx.Silent (EscapeSequence.finish c ctx).2 := by
    unfold EscapeSequence.finish
    split <;> exact ⟨rfl, rfl⟩
  have hfinishWith : ∀ intermediate,
      ctx.Silent (EscapeSequence.finishWith intermediate c ctx) := by
    intro intermediate
    unfold EscapeSequence.finishWith
    split
    · split <;> exact ⟨rfl, rfl⟩
    · exact ⟨rfl, rfl⟩
  rw [e.process_eq_step]
  cases e.role c with
  | introducer | canceller | intermediate => exact ⟨rfl, rfl⟩
  | executed => exact ctx.silent_executeControl c
  | final => exact hfinish
  | finalAfter seen => exact hfinishWith seen

end Context

namespace Progress

/-- The same command is being read, no replies were added and nothing was copied. -/
structure SameCommands (x y : Progress σ κ) : Prop where
  command : y.interpreter.command = x.interpreter.command
  silent : x.context.Silent y.context

theorem SameCommands.trans {x y z : Progress σ κ} (h : x.SameCommands y) (h' : y.SameCommands z) :
    x.SameCommands z :=
  ⟨h'.command.trans h.command, h.silent.trans h'.silent⟩

variable [Screen σ] {x x₀ : Progress σ κ}

theorem sameCommands_settle (x : Progress σ κ) : x.SameCommands x.settle := by
  by_cases hempty : x.interpreter.textRun = .empty
  · simp only [settle, hempty, TextRun.flush_empty]
    exact ⟨rfl, rfl, rfl⟩
  · simp only [settle, TextRun.flush_of_ne hempty]
    exact ⟨rfl, rfl, rfl⟩

theorem sameCommands_settleBefore (x : Progress σ κ) (next : Option Char) :
    x.SameCommands (x.settleBefore next) := by
  unfold settleBefore
  split
  · exact x.sameCommands_settle
  · exact ⟨rfl, rfl, rfl⟩

theorem sameCommands_begin (x : Progress σ κ) (c : Char) : x.SameCommands (x.begin c) := by
  cases hc : Opening.ofChar c with
  | text =>
    rw [begin_of_text _ hc]
    simp only [addText]
    split
    · refine SameCommands.trans ?_ (sameCommands_settle _)
      exact ⟨rfl, rfl, rfl⟩
    · exact ⟨rfl, rfl, rfl⟩
  | execute =>
    simp only [begin, hc]
    exact ⟨rfl, x.context.silent_executeControl c⟩
  | escape | control | command | skipped | nul | del | ignored =>
    simp only [begin, hc]
    exact ⟨rfl, rfl, rfl⟩

theorem sameCommands_afterString (x : Progress σ κ) (interrupt : Option Char) :
    x.SameCommands (x.afterString interrupt) := by
  cases interrupt with
  | none => exact ⟨rfl, rfl, rfl⟩
  | some c => exact ⟨rfl, x.context.silent_escape _ c⟩

variable [Clipboard κ]

/-- Outside a command nothing is read of one, no replies are added and nothing is copied. -/
theorem sameCommands_tick (hstate : x.interpreter.state ≠ .command) (c : Char) :
    x.SameCommands (x.tick c) := by
  unfold tick
  split
  · exact (x.sameCommands_settleBefore _).trans (sameCommands_begin _ c)
  · exact (x.sameCommands_settleBefore _).trans (sameCommands_begin _ c)
  · exact ⟨rfl, x.context.silent_escape _ c⟩
  · exact ⟨rfl, x.context.silent_control _ c⟩
  · exact absurd ‹_› hstate
  · simp only [tickSkipped]
    split
    · refine SameCommands.trans ?_ (sameCommands_afterString _ _)
      exact ⟨rfl, rfl, rfl⟩
    · exact ⟨rfl, rfl, rfl⟩

/-! ### Reading a command -/

/-- After a character a command has just begun, or the one that is being read goes on. -/
theorem tick_command_cases (htidy : x.interpreter.Tidy x.context.settings.payloadLimit)
    (c : Char) :
    (∃ limit, (x.tick c).interpreter.command.payload = .empty limit) ∨
      x.interpreter.state = .command ∧ (x.tick c).context = x.context ∧
        (x.tick c).interpreter.command.payload =
          (x.interpreter.command.payload.setLimit x.context.settings.payloadLimit).feed c := by
  by_cases hcommand : x.interpreter.state = .command
  · rw [tick, hcommand]
    simp only [tickCommand]
    split
    · left
      rw [(sameCommands_afterString _ _).command]
      exact ⟨_, rfl⟩
    · exact .inr ⟨trivial, rfl, rfl⟩
  · left
    rw [(sameCommands_tick hcommand c).command]
    exact ⟨_, htidy.command.resolve_left hcommand⟩

/-- The command that is being read began at the end of `w`, and what followed in the stream `s` is
its payload so far. -/
structure BeganAt (x₀ : Progress σ κ) (s w : List Char) : Prop where
  state : (x₀.after w).interpreter.state = .command
  empty : ∃ limit, (x₀.after w).interpreter.command.payload = .empty limit
  host : (x₀.after w).context.toHost = (x₀.after s).context.toHost
  plain : IsPayload (x₀.after s).interpreter.command.payload.chars
  stream :
    (x₀.after s).interpreter.command.payload.stage = .collecting ∧
        w ++ (x₀.after s).interpreter.command.payload.chars = s ∨
      (x₀.after s).interpreter.command.payload.stage = .escaped ∧
        w ++ (x₀.after s).interpreter.command.payload.chars ++ [esc] = s

theorem BeganAt.prefix_append_chars {s w : List Char} (h : x₀.BeganAt s w) :
    w ++ (x₀.after s).interpreter.command.payload.chars <+: s := by
  rcases h.stream with ⟨-, hstream⟩ | ⟨-, hstream⟩
  · exact ⟨[], (List.append_nil _).trans hstream⟩
  · exact ⟨[esc], hstream⟩

/-- A command that has just begun, began at the end of the stream. -/
theorem beganAt_self {s : List Char} (hstate : (x₀.after s).interpreter.state = .command)
    {limit : Nat} (hempty : (x₀.after s).interpreter.command.payload = .empty limit) :
    x₀.BeganAt s s := by
  have hplain : IsPayload [] := nofun
  refine ⟨hstate, ⟨limit, hempty⟩, rfl, ?_, .inl ?_⟩
  · rw [hempty]
    exact hplain
  · rw [hempty]
    exact ⟨rfl, List.append_nil s⟩

/-- A command that goes on, and of which all is kept, began where it began before. -/
theorem BeganAt.tick {s w : List Char} (h : x₀.BeganAt s w) {c : Char} {limit : Nat}
    (hcontext : (x₀.after (s ++ [c])).context = (x₀.after s).context)
    (hfeed : (x₀.after (s ++ [c])).interpreter.command.payload =
      ((x₀.after s).interpreter.command.payload.setLimit limit).feed c)
    (hopen : (x₀.after (s ++ [c])).interpreter.command.payload.isComplete = false)
    (hkept : (x₀.after (s ++ [c])).interpreter.command.payload.overflowed = false) :
    x₀.BeganAt (s ++ [c]) w := by
  have hhost := h.host.trans (congrArg Context.toHost hcontext.symm)
  have hcollecting := Payload.feed_of_collecting (c := c)
    (p := (x₀.after s).interpreter.command.payload.setLimit limit)
  have hescaped := Payload.feed_of_escaped
    (p := (x₀.after s).interpreter.command.payload.setLimit limit)
  rw [hfeed] at hopen hkept
  rcases h.stream with ⟨hstage, hstream⟩ | ⟨hstage, -⟩
  · rcases hcollecting hstage hopen hkept with ⟨rfl, hnext, hchars⟩ | ⟨hc, hnext, hchars⟩
    · refine ⟨h.state, h.empty, hhost, ?_, .inr ?_⟩
      · rw [hfeed, hchars]
        exact h.plain
      · rw [hfeed, hchars, hnext]
        exact ⟨rfl, congrArg (· ++ [esc]) hstream⟩
    · refine ⟨h.state, h.empty, hhost, ?_, .inl ?_⟩
      · rw [hfeed, hchars]
        exact isPayload_append.mpr ⟨h.plain, by simpa [IsPayload] using hc⟩
      · rw [hfeed, hchars, hnext, ← List.append_assoc]
        exact ⟨rfl, congrArg (· ++ [c]) hstream⟩
  · -- After ESC the next character ends the string, whatever it is.
    rw [hescaped hstage c] at hopen
    cases hopen

/-- A command that is being read, and of which all was kept, began somewhere. -/
theorem exists_beganAt {settings : Settings}
    (hsettings : (Likeness.ofSettings σ κ settings).Alike x₀ x₀)
    (htidy : x₀.interpreter.Tidy settings.payloadLimit) (hready : x₀.interpreter.state ≠ .command)
    {s : List Char} (hstate : (x₀.after s).interpreter.state = .command)
    (hkept : (x₀.after s).interpreter.command.payload.overflowed = false) :
    ∃ w, x₀.BeganAt s w := by
  -- The last character has begun the command or belongs to it.
  induction s using List.reverseRecOn with
  | nil => exact absurd hstate hready
  | append_singleton s c ih =>
    have htick : x₀.after (s ++ [c]) = (x₀.after s).tick c := after_append x₀ s [c]
    have hlimit : (x₀.after s).context.settings = settings := (hsettings.after s).host.left
    have hnow : (x₀.after s).interpreter.Tidy (x₀.after s).context.settings.payloadLimit :=
      hlimit.symm ▸ tidy_after hsettings htidy s
    have hopen := (tidy_after hsettings htidy (s ++ [c])).payload.isComplete
    rcases tick_command_cases hnow c with ⟨limit, hempty⟩ | ⟨hbefore, hcontext, hfeed⟩
    · exact ⟨s ++ [c], beganAt_self hstate (htick ▸ hempty)⟩
    · rw [← htick] at hcontext hfeed
      have hkept' : ((x₀.after s).interpreter.command.payload.setLimit _).overflowed = false :=
        Payload.overflowed_of_feed (hfeed ▸ hkept)
      obtain ⟨w, hw⟩ := ih hbefore hkept'
      exact ⟨w, hw.tick hcontext hfeed hopen hkept⟩

/-! ### Ending a command earlier -/

/-- The effect of a payload does not depend on the events noted. -/
theorem toHost_applyPayload (ctx : Context σ κ) (payload : List Char) :
    (ctx.applyPayload payload).toHost = ctx.toHost.applyPayload payload := by
  have hsame : (Likeness.same σ κ ctx.settings).Hosts ctx.toHost
      (Context.mk ctx.toHost #[]).toHost := .same_refl ctx.toHost
  exact (hsame.applyPayload payload).eq_of_same

/-- A command of which all is kept that there is room for acts as a command with all of it. -/
theorem toHost_finish_keepAll (ctx : Context σ κ) (payload : List Char) :
    (CommandString.finish ⟨(Payload.empty ctx.settings.payloadLimit).keepAll payload⟩ ctx).toHost =
      ctx.toHost.command payload := by
  have hoverflow : ((Payload.empty ctx.settings.payloadLimit).keepAll payload).overflowed = true ↔
      ctx.settings.payloadLimit < payload.length := by
    rw [Payload.overflowed_keepAll (Nat.zero_le _)]
    simp [Payload.empty]
  unfold CommandString.finish Host.command
  by_cases hlong : ctx.settings.payloadLimit < payload.length
  · rw [if_pos (hoverflow.mpr hlong), if_pos hlong]
    rfl
  · have hroom : (Payload.empty ctx.settings.payloadLimit).length + payload.length ≤
        (Payload.empty ctx.settings.payloadLimit).limit :=
      (Nat.zero_add _).symm ▸ Nat.le_of_not_lt hlong
    rw [if_neg (mt hoverflow.mp hlong), if_neg hlong, toHost_applyPayload,
      Payload.chars_keepAll hroom]
    rfl

/-- A command that has just begun acts with all that is read until it ends. -/
theorem toHost_commandEnd_of_empty {limit : Nat}
    (hempty : x.interpreter.command.payload = .empty limit) (part : List Char) :
    (x.commandEnd part).context.toHost = x.context.toHost.command part := by
  rw [← toHost_finish_keepAll, commandEnd, hempty]
  rfl

/-- If a command ended with a part of what was read of it, the host would become what it becomes by
that part. -/
theorem BeganAt.toHost_after_bel {settings : Settings}
    (hsettings : (Likeness.ofSettings σ κ settings).Alike x₀ x₀) {s w part : List Char}
    (h : x₀.BeganAt s w) (hpart : part <+: (x₀.after s).interpreter.command.payload.chars)
    (hle : part.length ≤ settings.payloadLimit) :
    (x₀.after (w ++ part ++ [bel])).context.toHost =
      (x₀.after s).context.toHost.applyPayload part := by
  obtain ⟨limit, hempty⟩ := h.empty
  have hlimit : (x₀.after w).context.settings = settings := (hsettings.after w).host.left
  have hreads : (x₀.after w).ReadsString .collecting :=
    ⟨by rw [h.state]; rfl, by rw [stringPayload, h.state, hempty]; rfl⟩
  have hplain : IsPayload part := fun c hc => h.plain c (hpart.subset hc)
  have hend := (hreads.after_payload hplain).tick_terminator (.inl rfl)
  rw [hreads.endString_after h.state hplain] at hend
  have hroom : ¬ (x₀.after w).context.settings.payloadLimit < part.length :=
    Nat.not_lt.mpr (hlimit.symm ▸ hle)
  have hcommand : (x₀.after w).context.toHost.command part =
      (x₀.after w).context.toHost.applyPayload part := if_neg hroom
  rw [after_append, after_append, ← h.host, ← hcommand, ← toHost_commandEnd_of_empty hempty]
  exact hend.host

end Progress

end ControlStream
