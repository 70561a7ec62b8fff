import ControlStream.Proofs.History

/-!
# The commands of a stream

Which commands stand in a stream is a matter of the stream alone. It does not depend on settings and
limits, on what the commands do, or on how the stream is divided. A framing is all that must be
known of the stream so far to find the commands in the rest of it.

## Main definitions

* `Framing`: what is being read of a stream.
* `Framing.next`, `Framing.ended?`: what a character makes of it, and the command that it ends.
* `commandsOf`: the payloads of the commands of a stream, in order.
* `Interpreter.Frames`: what an interpreter has in progress, as a framing.

## Main statements

* `Framing.commandsOf_append`: a command is found between any introducer and any terminator.
* `exists_of_mem_commandsOf`: nothing is taken for a command that is not one.
* `Progress.frames_tick`: an interpreter goes through the framings of its stream.
* `Progress.clipboard_tick`: only a character that ends a command copies anything.
-/

namespace ControlStream

open ControlChar

/-- What is being read of a stream, as far as it decides where commands begin and end. -/
inductive Framing
  /-- Text, and control characters that are not part of anything. -/
  | ground
  /-- An escape sequence, with or without intermediates. -/
  | escape (bare : Bool)
  | control
  /-- A string, with its payload so far if it is a command. After ESC the next character ends it. -/
  | string (command? : Option (List Char)) (escaped : Bool)
  deriving DecidableEq, Repr

namespace Framing

def opened : Char → Framing
  | '[' => control
  | ']' => string (some []) false
  | 'P' | 'X' | '^' | '_' => string none false
  | _ => ground

def afterEscape (bare : Bool) (c : Char) : Framing :=
  if c = esc then escape true
  else if c = can ∨ c = sub then ground
  else if isExecutable c then escape bare
  else if isIntermediate c then escape false
  else if bare then opened c
  else ground

def afterControl (c : Char) : Framing :=
  if c = esc then escape true
  else if c = can ∨ c = sub then ground
  else if isControlFinal c then ground
  else control

def beginning (c : Char) : Framing :=
  match Opening.ofChar c with
  | .escape => escape true
  | .control => control
  | .command => string (some []) false
  | .skipped => string none false
  | .nul | .del | .execute | .ignored | .text => ground

def next : Framing → Char → Framing
  | ground, c => beginning c
  | escape bare, c => afterEscape bare c
  | control, c => afterControl c
  | string command? false, c =>
    if c = bel ∨ c = st then ground
    else if c = esc then string command? true
    else string (command?.map (· ++ [c])) false
  | string _ true, c => if c = '\\' then ground else afterEscape true c

/-- The payload of the command that a character ends. -/
def ended? : Framing → Char → Option (List Char)
  | string command? false, c => if c = bel ∨ c = st then command? else none
  | string command? true, _ => command?
  | _, _ => none

def commandsFrom : Framing → List Char → List (List Char)
  | _, [] => []
  | f, c :: s => (f.ended? c).toList ++ (f.next c).commandsFrom s

end Framing

/-- The payloads of the commands of a stream that have come to their end, in order. -/
def commandsOf (s : List Char) : List (List Char) := Framing.ground.commandsFrom s

namespace Framing

/-! ### A command is found -/

theorem commandsFrom_payload {payload : List Char} (hpayload : IsPayload payload)
    (front s : List Char) :
    (string (some front) false).commandsFrom (payload ++ s) =
      (string (some (front ++ payload)) false).commandsFrom s := by
  induction payload generalizing front with
  | nil => rw [List.append_nil, List.nil_append]
  | cons c payload ih =>
    rw [IsPayload, List.forall_mem_cons] at hpayload
    obtain ⟨⟨hbel, hst, hesc⟩, hrest⟩ := hpayload
    have hnext : (string (some front) false).next c = string (some (front ++ [c])) false := by
      simp only [next, hbel, hst, hesc, or_self, if_false, Option.map_some]
    have hnone : (string (some front) false).ended? c = none := by
      simp only [ended?, hbel, hst, or_self, if_false]
    rw [List.cons_append, commandsFrom, hnext, hnone, ih hrest, List.append_assoc]
    rfl

theorem commandsFrom_append (f : Framing) (s t : List Char) :
    f.commandsFrom (s ++ t) = f.commandsFrom s ++ (s.foldl next f).commandsFrom t := by
  induction s generalizing f with
  | nil => rfl
  | cons c s ih =>
    rw [List.cons_append, commandsFrom, commandsFrom, ih, List.append_assoc]
    rfl

/-- A command is found between any introducer and any terminator. -/
theorem commandsFrom_command {i payload e : List Char} (hi : i ∈ commandIntroducers)
    (hpayload : IsPayload payload) (he : e ∈ stringTerminators) (s : List Char) :
    ground.commandsFrom (i ++ (payload ++ (e ++ s))) = payload :: ground.commandsFrom s := by
  have hopen : ∀ s, ground.commandsFrom (i ++ s) = (string (some []) false).commandsFrom s := by
    simp only [commandIntroducers, List.mem_cons, List.not_mem_nil, or_false] at hi
    rcases hi with rfl | rfl <;> exact fun _ => rfl
  rw [hopen, commandsFrom_payload hpayload, List.nil_append]
  simp only [stringTerminators, List.mem_cons, List.not_mem_nil, or_false] at he
  rcases he with rfl | rfl | rfl <;> rfl

/-- Where nothing is being read, whatever is written as a command is one. -/
theorem commandsOf_append {front i payload e : List Char}
    (hfront : front.foldl next ground = ground) (hi : i ∈ commandIntroducers)
    (hpayload : IsPayload payload) (he : e ∈ stringTerminators) (s : List Char) :
    commandsOf (front ++ (i ++ (payload ++ (e ++ s)))) =
      commandsOf front ++ payload :: commandsOf s := by
  rw [commandsOf, commandsFrom_append, hfront, commandsFrom_command hi hpayload he]
  rfl

/-! ### Nothing else is taken for a command -/

/-- How much of a string a stream ends with: a character that may open one, a payload, and perhaps
ESC. -/
def EndsInside (s : List Char) : Framing → Prop
  | string (some payload) escaped =>
    IsPayload payload ∧ ∃ before c, (c = ']' ∨ c = osc) ∧
      s = before ++ c :: payload ++ if escaped then [esc] else []
  | _ => True

theorem endsInside_opened (s : List Char) (c : Char) : EndsInside (s ++ [c]) (opened c) := by
  unfold opened
  split
  · trivial
  · exact ⟨nofun, s, ']', .inl rfl, (List.append_nil _).symm⟩
  · trivial
  · trivial
  · trivial
  · trivial
  · trivial

theorem endsInside_afterEscape (s : List Char) (bare : Bool) (c : Char) :
    EndsInside (s ++ [c]) (afterEscape bare c) := by
  unfold afterEscape
  repeat' split
  all_goals first | trivial | exact endsInside_opened s c

theorem endsInside_beginning (s : List Char) (c : Char) : EndsInside (s ++ [c]) (beginning c) := by
  have hcommand : Opening.ofChar c = .command → c = osc := by
    unfold Opening.ofChar
    repeat' split
    all_goals first | exact fun _ => ‹_› | exact nofun
  cases hc : Opening.ofChar c with
  | command =>
    simp only [beginning, hc]
    exact ⟨nofun, s, c, .inr (hcommand hc), (List.append_nil _).symm⟩
  | escape | control | skipped | nul | del | execute | ignored | text =>
    simp only [beginning, hc]
    trivial

theorem EndsInside.next {s : List Char} {f : Framing} (h : EndsInside s f) (c : Char) :
    EndsInside (s ++ [c]) (f.next c) := by
  cases f with
  | ground => exact endsInside_beginning s c
  | escape bare => exact endsInside_afterEscape s bare c
  | control =>
    simp only [Framing.next, afterControl]
    repeat' split
    all_goals trivial
  | string command? escaped =>
    cases escaped with
    | true =>
      simp only [Framing.next]
      split
      · trivial
      · exact endsInside_afterEscape s true c
    | false =>
      simp only [Framing.next]
      split
      · trivial
      · rename_i hend
        rw [not_or] at hend
        cases command? with
        | none => split <;> trivial
        | some payload =>
          obtain ⟨hpayload, before, d, hd, rfl⟩ := h
          by_cases hesc : c = esc
          · rw [if_pos hesc]
            exact ⟨hpayload, before, d, hd, by simp [hesc]⟩
          · rw [if_neg hesc]
            have hplain : IsPayload [c] := by simpa [IsPayload] using ⟨hend.1, hend.2, hesc⟩
            exact ⟨isPayload_append.mpr ⟨hpayload, hplain⟩, before, d, hd, by simp⟩

/-- Every command that is found stands in the stream, after a character that opens commands and
before one that ends them. -/
theorem exists_of_mem_commandsFrom {s rest payload : List Char} {f : Framing}
    (h : EndsInside s f) (hmem : payload ∈ f.commandsFrom rest) :
    IsPayload payload ∧ ∃ before c e after, (c = ']' ∨ c = osc) ∧ (e = bel ∨ e = st ∨ e = esc) ∧
      s ++ rest = before ++ c :: payload ++ e :: after := by
  induction rest generalizing s f with
  | nil => cases hmem
  | cons d rest ih =>
    rw [commandsFrom, List.mem_append, Option.mem_toList] at hmem
    rcases hmem with hended | hmem
    · cases f with
      | ground | escape | control => cases hended
      | string command? escaped =>
        cases escaped with
        | false =>
          simp only [ended?] at hended
          split at hended
          · rename_i hend
            cases hended
            obtain ⟨hpayload, before, c, hc, rfl⟩ := h
            exact ⟨hpayload, before, c, d, rest, hc, hend.imp_right .inl, by simp⟩
          · cases hended
        | true =>
          cases hended
          obtain ⟨hpayload, before, c, hc, rfl⟩ := h
          exact ⟨hpayload, before, c, esc, d :: rest, hc, .inr (.inr rfl), by simp⟩
    · have hrest := ih (h.next d) hmem
      rwa [List.append_assoc] at hrest

end Framing

/-- A command of a stream stands in it. -/
theorem exists_of_mem_commandsOf {s payload : List Char} (h : payload ∈ commandsOf s) :
    IsPayload payload ∧ ∃ before c e after, (c = ']' ∨ c = osc) ∧ (e = bel ∨ e = st ∨ e = esc) ∧
      s = before ++ c :: payload ++ e :: after :=
  Framing.exists_of_mem_commandsFrom (s := []) (f := .ground) trivial h

/-! ### What is kept of a payload -/

def Payload.Stage.reading (escaped : Bool) : Payload.Stage :=
  if escaped then .escaped else .collecting

namespace Payload

/-- What is kept of a payload that is being read, up to a limit. -/
def kept (limit : Nat) (payload : List Char) (escaped : Bool) : Payload :=
  { (empty limit).keepAll payload with isEscaped := escaped }

variable (limit : Nat) (payload : List Char)

theorem keepAll_concat (p : Payload) (s : List Char) (c : Char) :
    p.keepAll (s ++ [c]) = (p.keepAll s).keep c := List.foldl_append

theorem limit_keepAll (p : Payload) (s : List Char) : (p.keepAll s).limit = p.limit := by
  induction s generalizing p with
  | nil => rfl
  | cons c s ih =>
    rw [keepAll, List.foldl_cons]
    refine (ih (p.keep c)).trans ?_
    unfold keep
    split <;> rfl

theorem stage_keepAll_empty : ((empty limit).keepAll payload).stage = .collecting := by
  induction payload using List.reverseRecOn with
  | nil => rfl
  | append_singleton s c ih => rw [keepAll_concat, stage_keep, ih]

theorem kept_false : kept limit payload false = (empty limit).keepAll payload := by
  have hescaped := (stage_eq_collecting_iff.mp (stage_keepAll_empty limit payload)).2.2
  rw [kept, ← hescaped]

theorem stage_kept (escaped : Bool) : (kept limit payload escaped).stage = .reading escaped := by
  cases escaped with
  | false => exact (congrArg stage (kept_false _ _)).trans (stage_keepAll_empty limit payload)
  | true =>
    have hopen := stage_eq_collecting_iff.mp (stage_keepAll_empty limit payload)
    exact stage_eq_escaped_iff.mpr ⟨hopen.1, hopen.2.1, rfl⟩

theorem setLimit_kept (escaped : Bool) :
    (kept limit payload escaped).setLimit limit = kept limit payload escaped := by
  have hlimit : ((empty limit).keepAll payload).limit = limit := limit_keepAll _ _
  unfold setLimit kept
  generalize (empty limit).keepAll payload = p at hlimit ⊢
  subst hlimit
  rfl

theorem feed_kept_esc : (kept limit payload false).feed esc = kept limit payload true :=
  feed_esc (stage_kept _ _ _)

theorem feed_kept_of_plain {c : Char} (hc : c ≠ bel ∧ c ≠ st ∧ c ≠ esc) :
    (kept limit payload false).feed c = kept limit (payload ++ [c]) false := by
  rw [feed_of_plain (stage_kept _ _ _) hc, kept_false, kept_false, keepAll_concat]

end Payload

/-! ### Characters of sequences by their roles -/

namespace Framing

/-- What is being read after a character that has a role in an escape sequence. -/
def ofEscapeRole (bare : Bool) (c : Char) : EscapeSequence.Role → Framing
  | .introducer => escape true
  | .canceller | .finalAfter _ => ground
  | .executed => escape bare
  | .intermediate _ => escape false
  | .final => opened c

def ofControlRole : ControlSequence.Role → Framing
  | .introducer => escape true
  | .canceller | .malformedFinal | .final => ground
  | .executed | .filler | .overrun | .accepted => control

theorem afterEscape_eq_ofEscapeRole (e : EscapeSequence) (c : Char) :
    afterEscape e.intermediate.isNone c = ofEscapeRole e.intermediate.isNone c (e.role c) := by
  unfold afterEscape EscapeSequence.role
  cases e.intermediate with
  | none =>
    simp only [Option.isNone_none, if_true]
    split_ifs <;> rfl
  | some seen =>
    simp only [Option.isNone_some, Bool.false_eq_true, if_false]
    split_ifs <;> rfl

theorem afterControl_eq_ofControlRole (s : ControlSequence) (c : Char) :
    afterControl c = ofControlRole (s.role c) := by
  unfold afterControl ControlSequence.role
  by_cases hfinal : isControlFinal c = true
  · have hexecutable : ¬ isExecutable c = true := by
      simp only [isControlFinal, isExecutable, Bool.and_eq_true, inRange_iff] at hfinal ⊢
      omega
    have hfiller : ¬ (c = nul ∨ c = del) := by
      rintro (rfl | rfl) <;> cases hfinal
    simp only [if_neg hexecutable, if_neg hfiller, if_pos hfinal]
    split_ifs <;> rfl
  · simp only [if_neg hfinal]
    split_ifs <;> rfl

end Framing

/-! ### What an interpreter has in progress -/

/-- What an interpreter has in progress is a framing, and of the payload of a command it has kept
what it keeps up to a limit. -/
def Interpreter.Frames (limit : Nat) (i : Interpreter) : Framing → Prop
  | .ground => i.state = .ready ∨ i.state = .text
  | .escape bare => i.state = .escape ∧ i.escape.intermediate.isNone = bare
  | .control => i.state = .control
  | .string none escaped => i.state = .skipped ∧ i.skipped.payload.stage = .reading escaped
  | .string (some payload) escaped =>
    i.state = .command ∧ i.command.payload.setLimit limit = .kept limit payload escaped

namespace Interpreter

variable {limit : Nat} {i : Interpreter}

/-- A command that has just begun. -/
theorem frames_command (hstate : i.state = .command)
    (hempty : i.command.payload = .empty i.command.payload.limit) :
    i.Frames limit (.string (some []) false) :=
  ⟨hstate, by rw [hempty]; rfl⟩

/-- A string that has just begun to be skipped. -/
theorem frames_skipped (hstate : i.state = .skipped) (hskipped : i.skipped = .initial) :
    i.Frames limit (.string none false) :=
  ⟨hstate, by rw [hskipped]; rfl⟩

/-- The final character of an escape sequence. -/
theorem frames_opened {σ κ : Type} [Screen σ] {ctx : Context σ κ} {c : Char}
    (hstate : i.state = (EscapeSequence.finish c ctx).1)
    (hempty : i.command.payload = .empty i.command.payload.limit)
    (hskipped : i.skipped = .initial) : i.Frames limit (.opened c) := by
  unfold EscapeSequence.finish at hstate
  split at hstate
  · exact hstate
  · exact frames_command hstate hempty
  · exact frames_skipped hstate hskipped
  · exact frames_skipped hstate hskipped
  · exact frames_skipped hstate hskipped
  · exact frames_skipped hstate hskipped
  · exact .inl hstate
  · exact .inl hstate
  · exact .inl hstate
  · exact .inl hstate
  · exact .inl hstate
  · exact .inl hstate
  · unfold Framing.opened
    split
    all_goals first | contradiction | exact .inl hstate

end Interpreter

namespace Progress

variable {σ κ : Type} [Screen σ] {x : Progress σ κ} {limit : Nat}

theorem frames_begin (hclear : x.interpreter.Clear) (c : Char) :
    (x.begin c).interpreter.Frames limit (.beginning c) := by
  cases hc : Opening.ofChar c with
  | text =>
    simp only [begin_of_text _ hc, Framing.beginning, hc, addText]
    split
    · exact .inl (by simp [settle])
    · exact .inr rfl
  | escape =>
    simp only [begin, Framing.beginning, hc]
    exact ⟨rfl, by rw [withState, hclear.escape]; rfl⟩
  | control =>
    simp only [begin, Framing.beginning, hc]
    exact rfl
  | command =>
    simp only [begin, Framing.beginning, hc]
    exact Interpreter.frames_command rfl hclear.command
  | skipped =>
    simp only [begin, Framing.beginning, hc]
    exact Interpreter.frames_skipped rfl hclear.skipped
  | nul | del | execute | ignored =>
    simp only [begin, Framing.beginning, hc]
    exact .inl rfl

theorem frames_tickEscape
    (hempty : x.interpreter.command.payload = .empty x.interpreter.command.payload.limit)
    (hskipped : x.interpreter.skipped = .initial) (c : Char) :
    (x.tickEscape c).interpreter.Frames limit
      (.afterEscape x.interpreter.escape.intermediate.isNone c) := by
  rw [Framing.afterEscape_eq_ofEscapeRole, tickEscape, EscapeSequence.process_eq_step]
  cases x.interpreter.escape.role c with
  | introducer | executed | intermediate => exact ⟨rfl, rfl⟩
  | canceller | finalAfter => exact .inl rfl
  | final => exact Interpreter.frames_opened rfl hempty hskipped

theorem frames_tickControl (hescape : x.interpreter.escape = .initial) (c : Char) :
    (x.tickControl c).interpreter.Frames limit (.afterControl c) := by
  rw [Framing.afterControl_eq_ofControlRole x.interpreter.control, tickControl,
    ControlSequence.process_eq_step]
  cases x.interpreter.control.role c with
  | introducer => exact ⟨rfl, by rw [hescape]; rfl⟩
  | canceller | malformedFinal | final => exact .inl rfl
  | executed | filler | overrun | accepted => exact rfl

theorem frames_afterString (hclear : x.interpreter.Clear) (c : Char) :
    (x.afterString (if c = '\\' then none else some c)).interpreter.Frames limit
      (if c = '\\' then .ground else .afterEscape true c) := by
  by_cases hc : c = '\\'
  · simp only [if_pos hc]
    exact .inl rfl
  · simp only [if_neg hc]
    have hframes : (x.tickEscape c).interpreter.Frames limit
        (.afterEscape x.interpreter.escape.intermediate.isNone c) :=
      frames_tickEscape hclear.command hclear.skipped c
    rwa [hclear.escape] at hframes

omit [Screen σ] in
/-- A string is being read if the framing says so. -/
theorem readsString_of_frames {command? : Option (List Char)} {escaped : Bool}
    (h : x.interpreter.Frames limit (.string command? escaped)) :
    x.ReadsString (.reading escaped) := by
  cases command? with
  | none =>
    obtain ⟨hstate, hstage⟩ := h
    exact ⟨by rw [hstate]; rfl, by rw [stringPayload, hstate]; exact hstage⟩
  | some payload =>
    obtain ⟨hstate, hpayload⟩ := h
    have hstage := (congrArg Payload.stage hpayload).trans (Payload.stage_kept _ _ _)
    exact ⟨by rw [hstate]; rfl, by rw [stringPayload, hstate]; exact hstage⟩

variable [Clipboard κ]

omit [Screen σ] in
/-- Once a string has ended nothing is left of it. -/
theorem clear_endString {stage : Payload.Stage} (h : x.interpreter.Tidy limit)
    (hreads : x.ReadsString stage) : x.endString.interpreter.Clear := by
  rcases hreads.state with hstate | hstate
  · have hescape := h.escape.resolve_left (by simp [hstate])
    have hcontrol := h.control.resolve_left (by simp [hstate])
    have hskipped := h.skipped.resolve_left (by simp [hstate])
    simp only [endString, hstate]
    exact ⟨hescape, hcontrol, rfl, hskipped⟩
  · have hescape := h.escape.resolve_left (by simp [hstate])
    have hcontrol := h.control.resolve_left (by simp [hstate])
    have hcommand := h.command.resolve_left (by simp [hstate])
    simp only [endString, hstate]
    refine ⟨hescape, hcontrol, hcommand, ?_⟩
    rw [Payload.reset, h.skippedLimit]
    rfl

/-- A string that ends does nothing unless it is a command. -/
theorem toHost_endString {command? : Option (List Char)} {escaped : Bool}
    (h : x.interpreter.Frames x.context.settings.payloadLimit (.string command? escaped)) :
    x.endString.context.toHost = command?.elim x.context.toHost x.context.toHost.command := by
  cases command? with
  | none =>
    simp only [endString, h.1]
    rfl
  | some payload =>
    -- Neither the limit that is noted nor the stage matters for what the command does.
    have hfinish : x.interpreter.command.finish x.context =
        CommandString.finish ⟨x.interpreter.command.payload.setLimit
          x.context.settings.payloadLimit⟩ x.context := rfl
    simp only [endString, h.1]
    rw [hfinish, h.2]
    exact toHost_finish_keepAll x.context payload

/-- A string that does not end with a character goes on, and nothing is done. -/
theorem tick_of_open {command? : Option (List Char)}
    (h : x.interpreter.Frames x.context.settings.payloadLimit (.string command? false)) {c : Char}
    (hc : ¬ (c = bel ∨ c = st)) :
    (x.tick c).interpreter.Frames x.context.settings.payloadLimit
      ((Framing.string command? false).next c) ∧ (x.tick c).context = x.context := by
  have hnext : (Framing.string command? false).next c =
      if c = esc then .string command? true else .string (command?.map (· ++ [c])) false :=
    if_neg hc
  rw [hnext]
  have hplain : c ≠ esc → c ≠ bel ∧ c ≠ st ∧ c ≠ esc := by
    rw [not_or] at hc
    exact fun hesc => ⟨hc.1, hc.2, hesc⟩
  cases command? with
  | none =>
    obtain ⟨hstate, hstage⟩ := h
    simp only [tick, hstate, tickSkipped]
    by_cases hesc : c = esc
    · subst hesc
      have hfeed := Payload.stage_feed_esc hstage
      simp only [hfeed, if_true]
      exact ⟨⟨rfl, hfeed⟩, trivial⟩
    · have hfeed := Payload.stage_feed_of_plain hstage (hplain hesc)
      simp only [hfeed, if_neg hesc]
      exact ⟨⟨rfl, hfeed⟩, trivial⟩
  | some payload =>
    obtain ⟨hstate, hpayload⟩ := h
    simp only [tick, hstate, tickCommand, hpayload]
    by_cases hesc : c = esc
    · subst hesc
      simp only [Payload.feed_kept_esc, Payload.stage_kept, Payload.Stage.reading, if_true]
      exact ⟨⟨rfl, Payload.setLimit_kept _ _ _⟩, trivial⟩
    · simp only [Payload.feed_kept_of_plain _ _ (hplain hesc), Payload.stage_kept,
        Payload.Stage.reading, Bool.false_eq_true, if_false, if_neg hesc]
      exact ⟨⟨rfl, Payload.setLimit_kept _ _ _⟩, trivial⟩

/-- A string goes on or ends as its framing does. -/
theorem frames_tick_string (htidy : x.interpreter.Tidy x.context.settings.payloadLimit)
    {command? : Option (List Char)} {escaped : Bool}
    (h : x.interpreter.Frames x.context.settings.payloadLimit (.string command? escaped))
    (c : Char) :
    (x.tick c).interpreter.Frames x.context.settings.payloadLimit
      ((Framing.string command? escaped).next c) := by
  have hreads := readsString_of_frames h
  have hclear := clear_endString htidy hreads
  cases escaped with
  | true =>
    have hdone := htidy.keepsText.textDone hreads.ne_ready hreads.ne_text
    rw [(hreads.tick_of_escaped hdone c).interpreter]
    exact frames_afterString hclear c
  | false =>
    by_cases hc : c = bel ∨ c = st
    · have hnext : (Framing.string command? false).next c = .ground := if_pos hc
      rw [hnext, (hreads.tick_terminator hc).interpreter]
      exact .inl rfl
    · exact (tick_of_open h hc).1

/-- An interpreter goes through the framings of its stream. -/
theorem frames_tick (htidy : x.interpreter.Tidy x.context.settings.payloadLimit) {f : Framing}
    (h : x.interpreter.Frames x.context.settings.payloadLimit f) (c : Char) :
    (x.tick c).interpreter.Frames x.context.settings.payloadLimit (f.next c) := by
  cases f with
  | ground =>
    have hclear := clear_settleBefore (htidy.clear h) (some c)
    have htick : x.tick c = (x.settleBefore (some c)).begin c := by
      rcases h with hstate | hstate <;> rw [tick, hstate]
    rw [htick]
    exact frames_begin hclear c
  | escape bare =>
    obtain ⟨hstate, rfl⟩ := h
    have hcommand := htidy.command.resolve_left (by simp [hstate])
    have hskipped := htidy.skipped.resolve_left (by simp [hstate])
    rw [tick, hstate]
    exact frames_tickEscape hcommand hskipped c
  | control =>
    have hstate : x.interpreter.state = .control := h
    rw [tick, hstate]
    exact frames_tickControl (htidy.escape.resolve_left (by simp [hstate])) c
  | string command? escaped => exact frames_tick_string htidy h c

/-- What the character that ends a command copies is what the command copies. -/
theorem clipboard_tick_command (htidy : x.interpreter.Tidy x.context.settings.payloadLimit)
    {payload : List Char} {escaped : Bool}
    (h : x.interpreter.Frames x.context.settings.payloadLimit (.string (some payload) escaped))
    (c : Char) :
    (x.tick c).context.clipboard =
      ((Framing.string (some payload) escaped).ended? c).elim x.context.clipboard fun payload =>
        (x.context.toHost.command payload).clipboard := by
  have hreads := readsString_of_frames h
  have hend : x.endString.context.clipboard = (x.context.toHost.command payload).clipboard :=
    congrArg Host.clipboard (toHost_endString h)
  cases escaped with
  | true =>
    have hdone := htidy.keepsText.textDone hreads.ne_ready hreads.ne_text
    have hsame := congrArg Host.clipboard (hreads.tick_of_escaped hdone c).host
    exact (hsame.trans (sameCommands_afterString _ _).silent.clipboard).trans hend
  | false =>
    by_cases hc : c = bel ∨ c = st
    · have hended : (Framing.string (some payload) false).ended? c = some payload := if_pos hc
      rw [hended]
      exact (congrArg Host.clipboard (hreads.tick_terminator hc).host).trans hend
    · have hended : (Framing.string (some payload) false).ended? c = none := if_neg hc
      rw [hended, (tick_of_open h hc).2]
      rfl

/-- Only a character that ends a command copies anything, and no more than the command does. -/
theorem clipboard_tick (htidy : x.interpreter.Tidy x.context.settings.payloadLimit) {f : Framing}
    (h : x.interpreter.Frames x.context.settings.payloadLimit f) (c : Char) :
    (x.tick c).context.clipboard =
      (f.ended? c).elim x.context.clipboard fun payload =>
        (x.context.toHost.command payload).clipboard := by
  have hsilent : x.interpreter.state ≠ .command → (x.tick c).context.clipboard =
      x.context.clipboard := fun hstate => (sameCommands_tick hstate c).silent.clipboard
  cases f with
  | ground => exact hsilent (by rcases h with hstate | hstate <;> simp [hstate])
  | escape bare => exact hsilent (by simp [h.1])
  | control => exact hsilent (by simp [show x.interpreter.state = .control from h])
  | string command? escaped =>
    cases command? with
    | none =>
      have hended : (Framing.string none escaped).ended? c = none := by
        cases escaped <;> simp [Framing.ended?]
      rw [hended]
      exact hsilent (by simp [h.1])
    | some payload => exact clipboard_tick_command htidy h c

end Progress

end ControlStream
