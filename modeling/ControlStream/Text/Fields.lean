/-!
# Fields of a text

Cutting a text at separators.

## Main definitions

* `cutAt?`: the text before and after the first separator.
* `fieldsOf`: the pieces between separators, of which there is always one more than separators.

## Main statements

* `cutAt?_eq_some_iff`: a text is cut exactly at its first separator.
* `exists_prefix_of_fieldsOf`: the first fields of a text are those of a text it begins with.
-/

namespace ControlStream

/-- The text before the first `separator` and the text after it, if there is one. -/
def cutAt? (separator : Char) (s : List Char) : Option (List Char × List Char) :=
  match s.dropWhile (· != separator) with
  | [] => none
  | _ :: after => some (s.takeWhile (· != separator), after)

def consField (c : Char) : List (List Char) → List (List Char)
  | [] => [[c]]
  | field :: fields => (c :: field) :: fields

/-- The fields of `s` between occurrences of `separator`. The empty text has one empty field. -/
def fieldsOf (separator : Char) (s : List Char) : List (List Char) :=
  s.foldr (fun c fields => if c = separator then [] :: fields else consField c fields) [[]]

@[simp] theorem fieldsOf_nil (separator : Char) : fieldsOf separator [] = [[]] := rfl

@[simp] theorem fieldsOf_cons_separator (separator : Char) (s : List Char) :
    fieldsOf separator (separator :: s) = [] :: fieldsOf separator s := by
  simp [fieldsOf]

theorem fieldsOf_cons_of_ne {separator c : Char} (h : c ≠ separator) (s : List Char) :
    fieldsOf separator (c :: s) = consField c (fieldsOf separator s) := by
  simp [fieldsOf, h]

theorem fieldsOf_ne_nil (separator : Char) (s : List Char) : fieldsOf separator s ≠ [] := by
  cases s with
  | nil => simp
  | cons c s =>
    by_cases h : c = separator
    · subst h; simp
    · rw [fieldsOf_cons_of_ne h]
      cases fieldsOf separator s <;> simp [consField]

@[simp] theorem cutAt?_nil (separator : Char) : cutAt? separator [] = none := rfl

theorem cutAt?_cons (separator c : Char) (s : List Char) :
    cutAt? separator (c :: s) =
      if c = separator then some ([], s)
      else (cutAt? separator s).map fun parts => (c :: parts.1, parts.2) := by
  by_cases h : c = separator
  · simp [cutAt?, h]
  · simp only [cutAt?, List.dropWhile_cons, List.takeWhile_cons, bne_iff_ne, ne_eq, h,
      not_false_eq_true, if_true, if_false]
    split <;> rfl

theorem cutAt?_append {separator : Char} {s : List Char} (h : separator ∉ s) (t : List Char) :
    cutAt? separator (s ++ separator :: t) = some (s, t) := by
  induction s with
  | nil => simp [cutAt?_cons]
  | cons c s ih =>
    rw [List.mem_cons, not_or] at h
    rw [List.cons_append, cutAt?_cons, if_neg (Ne.symm h.1), ih h.2]
    rfl

/-- A text is cut exactly at its first separator. -/
theorem cutAt?_eq_some_iff {separator : Char} {s before after : List Char} :
    cutAt? separator s = some (before, after) ↔
      s = before ++ separator :: after ∧ separator ∉ before := by
  constructor
  · intro h
    induction s generalizing before with
    | nil => cases h
    | cons c s ih =>
      rw [cutAt?_cons] at h
      split at h
      · rename_i hc
        cases h
        simp [hc]
      · rename_i hc
        obtain ⟨⟨first, rest⟩, hparts, heq⟩ := Option.map_eq_some_iff.mp h
        cases heq
        obtain ⟨hs, hfirst⟩ := ih hparts
        simp [hs, hfirst, Ne.symm hc]
  · rintro ⟨rfl, h⟩
    exact cutAt?_append h after

theorem cutAt?_eq_none_iff {separator : Char} {s : List Char} :
    cutAt? separator s = none ↔ separator ∉ s := by
  induction s with
  | nil => simp
  | cons c s ih =>
    rw [cutAt?_cons]
    split
    · simp_all
    · simp [ih, Ne.symm ‹c ≠ separator›]

theorem fieldsOf_append_separator {separator : Char} {s : List Char} (h : separator ∉ s)
    (t : List Char) : fieldsOf separator (s ++ separator :: t) = s :: fieldsOf separator t := by
  induction s with
  | nil => exact fieldsOf_cons_separator separator t
  | cons c s ih =>
    rw [List.mem_cons, not_or] at h
    rw [List.cons_append, fieldsOf_cons_of_ne (Ne.symm h.1), ih h.2]
    rfl

theorem fieldsOf_of_not_mem {separator : Char} {s : List Char} (h : separator ∉ s) :
    fieldsOf separator s = [s] := by
  induction s with
  | nil => rfl
  | cons c s ih =>
    rw [List.mem_cons, not_or] at h
    rw [fieldsOf_cons_of_ne (Ne.symm h.1), ih h.2]
    rfl

/-- A text has one field, or a first one before the first separator. -/
theorem fieldsOf_cases (separator : Char) (s : List Char) :
    separator ∉ s ∧ fieldsOf separator s = [s] ∨
      ∃ before after, s = before ++ separator :: after ∧ separator ∉ before ∧
        fieldsOf separator s = before :: fieldsOf separator after := by
  cases hcut : cutAt? separator s with
  | none =>
    have hnone := cutAt?_eq_none_iff.mp hcut
    exact .inl ⟨hnone, fieldsOf_of_not_mem hnone⟩
  | some parts =>
    obtain ⟨before, after⟩ := parts
    obtain ⟨rfl, hbefore⟩ := cutAt?_eq_some_iff.mp hcut
    exact .inr ⟨before, after, rfl, hbefore, fieldsOf_append_separator hbefore after⟩

/-- The first fields of a text are the fields of a text it begins with. -/
theorem exists_prefix_of_fieldsOf {separator : Char} {s : List Char} {fields : List (List Char)}
    (h : fields <+: fieldsOf separator s) (hne : fields ≠ []) :
    ∃ r, r <+: s ∧ fieldsOf separator r = fields := by
  induction s generalizing fields with
  | nil =>
    obtain ⟨rest, hrest⟩ := h
    cases fields with
    | nil => exact absurd rfl hne
    | cons field fields =>
      simp at hrest
      refine ⟨[], List.nil_prefix, ?_⟩
      simp [hrest]
  | cons c s ih =>
    obtain ⟨rest, hrest⟩ := h
    cases fields with
    | nil => exact absurd rfl hne
    | cons field fields =>
    by_cases hc : c = separator
    · subst hc
      rw [fieldsOf_cons_separator, List.cons_append, List.cons.injEq] at hrest
      obtain ⟨rfl, hrest⟩ := hrest
      cases fields with
      | nil => exact ⟨[], List.nil_prefix, rfl⟩
      | cons next fields =>
        obtain ⟨r, hr, hfields⟩ := ih ⟨rest, hrest⟩ (by simp)
        refine ⟨c :: r, List.cons_prefix_cons.mpr ⟨rfl, hr⟩, ?_⟩
        rw [fieldsOf_cons_separator, hfields]
    · rw [fieldsOf_cons_of_ne hc] at hrest
      cases hs : fieldsOf separator s with
      | nil => exact absurd hs (fieldsOf_ne_nil separator s)
      | cons first others =>
        rw [hs, consField, List.cons_append, List.cons.injEq] at hrest
        obtain ⟨rfl, hrest⟩ := hrest
        have hprefix : first :: fields <+: fieldsOf separator s := ⟨rest, by rw [hs, ← hrest]; rfl⟩
        obtain ⟨r, hr, hfields⟩ := ih hprefix (by simp)
        refine ⟨c :: r, List.cons_prefix_cons.mpr ⟨rfl, hr⟩, ?_⟩
        rw [fieldsOf_cons_of_ne hc, hfields]
        rfl

end ControlStream
