import ControlStream.Proofs.PageShape

/-!
# Wide characters

A wide character has two cells, and the second of them is a spacer. As long as both are written,
pushed and cut off together, the cells of a row are those of whole characters, and the text of a row
is as wide as the row is long. Nothing sees to that when a character is put on a page: it may take
the place of one half of a wide character, or come between its halves, or push one of them out of
the page. It does so just if there is a spacer at one of two places of the row.

## Main definitions

* `Row.Paired`: a row of whole characters.
* `Row.displayWidth`: the width of the characters of a row.
* `Page.Whole`: all rows are of whole characters.
* `Page.Cuts`: a character would cut a wide one in two.
* `Page.Spares`: calls that never do.

## Main statements

* `Row.Paired.take_iff`, `Row.Paired.drop_iff`: where a row may be cut.
* `Row.paired_iff`: spacers follow wide characters, and wide characters are followed by spacers.
* `Page.Whole.put_iff`: a page of whole characters remains one unless a character is cut.
* `Page.spares_of_forward`: nothing is cut by text that is only written at the end of a row.
* `Page.Spares.paired`: what calls that cut nothing make of an empty page.
-/

namespace ControlStream

def Call.AtMostWide : Call → Prop
  | .write text => ∀ c ∈ text.toList, cellWidth c ≤ 2
  | .control _ | .insert _ => True

instance : (call : Call) → Decidable call.AtMostWide
  | .write text => List.decidableBAll (cellWidth · ≤ 2) text.toList
  | .control _ | .insert _ => .isTrue trivial

namespace Row

/-! ### Rows of whole characters -/

/-- The cells of whole characters, one after the other, each of them of one cell or of two. -/
inductive Paired : Row → Prop
  | nil : Paired []
  | narrow {c : Char} {row : Row} (hc : cellWidth c = 1) (h : Paired row) :
    Paired (.glyph c :: row)
  | wide {c : Char} {row : Row} (hc : cellWidth c = 2) (h : Paired row) :
    Paired (.glyph c :: .spacer :: row)

/-- The width of the characters that a row shows. -/
def displayWidth : Row → Nat
  | [] => 0
  | .glyph c :: row => cellWidth c + displayWidth row
  | .spacer :: row => displayWidth row

@[simp] theorem displayWidth_glyph (c : Char) (row : Row) :
    displayWidth (.glyph c :: row) = cellWidth c + row.displayWidth := rfl

@[simp] theorem displayWidth_spacer (row : Row) :
    displayWidth (.spacer :: row) = row.displayWidth := rfl

namespace Paired

variable {row : Row}

theorem of_narrow {c : Char} (hc : cellWidth c = 1) (h : Paired (.glyph c :: row)) :
    Paired row := by
  cases h with
  | narrow _ h => exact h
  | wide hwide _ => omega

theorem of_wide {c : Char} (hc : cellWidth c = 2) (h : Paired (.glyph c :: row)) :
    ∃ rest, row = .spacer :: rest ∧ Paired rest := by
  cases h with
  | narrow hnarrow _ => omega
  | wide _ h => exact ⟨_, rfl, h⟩

/-- Behind whole characters, the rest decides. -/
theorem append_iff {a b : Row} (ha : Paired a) : Paired (a ++ b) ↔ Paired b := by
  induction ha with
  | nil => rfl
  | narrow hc _ ih => exact ⟨fun h => ih.mp (h.of_narrow hc), fun h => .narrow hc (ih.mpr h)⟩
  | wide hc _ ih =>
    refine ⟨fun h => ?_, fun h => .wide hc (ih.mpr h)⟩
    obtain ⟨rest, hrest, hpaired⟩ := h.of_wide hc
    cases hrest
    exact ih.mp hpaired

/-- A row of whole characters may be cut off anywhere but in front of a spacer. -/
theorem take_iff (h : Paired row) (i : Nat) : Paired (row.take i) ↔ row[i]? ≠ some .spacer := by
  induction h generalizing i with
  | nil => simp [nil]
  | narrow hc _ ih =>
    cases i with
    | zero => simp [nil]
    | succ i =>
      rw [List.take_succ_cons, List.getElem?_cons_succ, ← ih]
      exact ⟨fun h => h.of_narrow hc, .narrow hc⟩
  | wide hc _ ih =>
    match i with
    | 0 => simp [nil]
    | 1 =>
      refine ⟨fun h => ?_, fun h => absurd rfl h⟩
      obtain ⟨rest, hrest, -⟩ := h.of_wide hc
      cases hrest
    | i + 2 =>
      rw [List.take_succ_cons, List.take_succ_cons, List.getElem?_cons_succ,
        List.getElem?_cons_succ, ← ih]
      refine ⟨fun h => ?_, .wide hc⟩
      obtain ⟨rest, hrest, hpaired⟩ := h.of_wide hc
      cases hrest
      exact hpaired

theorem getElem?_zero (h : Paired row) : row[0]? ≠ some .spacer := by
  cases h <;> simp

/-- What is left of a row of whole characters begins anywhere but with a spacer. -/
theorem drop_iff (h : Paired row) (i : Nat) : Paired (row.drop i) ↔ row[i]? ≠ some .spacer := by
  constructor
  · intro hdrop
    have hfirst := hdrop.getElem?_zero
    rwa [List.getElem?_drop] at hfirst
  · intro hi
    have htake := (h.take_iff i).mpr hi
    rw [← htake.append_iff, List.take_append_drop]
    exact h

theorem replicate (n : Nat) : Paired (List.replicate n (.glyph ' ')) := by
  induction n with
  | zero => exact nil
  | succ n ih => exact narrow (by decide) ih

/-- The text of a row of whole characters is as wide as the row is long. -/
theorem displayWidth_eq (h : Paired row) : row.displayWidth = row.length := by
  induction h with
  | nil => rfl
  | narrow hc _ ih =>
    rw [displayWidth_glyph, List.length_cons]
    omega
  | wide hc _ ih =>
    rw [displayWidth_glyph, displayWidth_spacer, List.length_cons, List.length_cons]
    omega

/-- The column at which a character of a row is shown is that of its cell. -/
theorem displayWidth_take (h : Paired row) {i : Nat} {c : Char} (hi : row[i]? = some (.glyph c)) :
    displayWidth (row.take i) = i := by
  have htake := (h.take_iff i).mpr (by simp [hi])
  have hlength : i < row.length := (List.getElem?_eq_some_iff.mp hi).1
  rw [htake.displayWidth_eq, List.length_take]
  omega

theorem cellWidth_of_mem (h : Paired row) {c : Char} (hc : .glyph c ∈ row) :
    cellWidth c = 1 ∨ cellWidth c = 2 := by
  induction h with
  | nil => cases hc
  | narrow hnarrow _ ih =>
    rcases List.mem_cons.mp hc with heq | hc
    · cases heq
      exact .inl hnarrow
    · exact ih hc
  | wide hwide _ ih =>
    rcases List.mem_cons.mp hc with heq | hc
    · cases heq
      exact .inr hwide
    · exact ih ((List.mem_cons.mp hc).resolve_left nofun)

/-- A spacer is the second cell of a wide character, and a wide character has one. -/
theorem spacer_iff (h : Paired row) (i : Nat) :
    row[i + 1]? = some .spacer ↔ ∃ c, row[i]? = some (.glyph c) ∧ cellWidth c = 2 := by
  induction h generalizing i with
  | nil => simp
  | narrow hc h ih =>
    cases i with
    | zero =>
      have hfirst := h.getElem?_zero
      simp [hc, hfirst]
    | succ i => exact ih i
  | wide hc h ih =>
    match i with
    | 0 => simp [hc]
    | 1 =>
      have hfirst := h.getElem?_zero
      simp [hfirst]
    | i + 2 => exact ih i

/-- Spacers that stand where they should leave whole characters. -/
theorem of_spacer_iff {row : Row} (hwidth : ∀ c, .glyph c ∈ row → cellWidth c = 1 ∨ cellWidth c = 2)
    (hfirst : row[0]? ≠ some .spacer)
    (hpairs : ∀ i, row[i + 1]? = some .spacer ↔
      ∃ c, row[i]? = some (.glyph c) ∧ cellWidth c = 2) : Paired row := by
  match row with
  | [] => exact nil
  | .spacer :: _ => exact absurd rfl hfirst
  | .glyph c :: rest =>
    have hnext := hpairs 0
    rcases hwidth c List.mem_cons_self with hc | hc
    · refine narrow hc (of_spacer_iff (fun d hd => hwidth d (List.mem_cons_of_mem _ hd)) ?_
        fun i => hpairs (i + 1))
      simpa [hc] using hnext
    · match rest with
      | [] => simp [hc] at hnext
      | .glyph _ :: _ => simp [hc] at hnext
      | .spacer :: rest =>
        refine wide hc (of_spacer_iff
          (fun d hd => hwidth d (List.mem_cons_of_mem _ (List.mem_cons_of_mem _ hd))) ?_
          fun i => hpairs (i + 2))
        simpa using hpairs 1

/-- Two parts of a row are of whole characters if the row is and the second does not begin with a
spacer. -/
theorem of_append {a b : Row} (h : Paired (a ++ b)) (hb : b[0]? ≠ some .spacer) :
    Paired a ∧ Paired b := by
  have ha : Paired a := by
    have htake := (h.take_iff a.length).mpr
    rw [List.take_left, List.getElem?_append_right (Nat.le_refl _), Nat.sub_self] at htake
    exact htake hb
  exact ⟨ha, ha.append_iff.mp h⟩

end Paired

/-- In a row of whole characters each spacer directly follows a wide character, and each wide
character is directly followed by a spacer. -/
theorem paired_iff {row : Row} :
    Paired row ↔ (∀ c, .glyph c ∈ row → cellWidth c = 1 ∨ cellWidth c = 2) ∧
      row[0]? ≠ some .spacer ∧
      ∀ i, row[i + 1]? = some .spacer ↔ ∃ c, row[i]? = some (.glyph c) ∧ cellWidth c = 2 :=
  ⟨fun h => ⟨fun _ => h.cellWidth_of_mem, h.getElem?_zero, h.spacer_iff⟩,
    fun ⟨hwidth, hfirst, hpairs⟩ => .of_spacer_iff hwidth hfirst hpairs⟩

/-! ### Putting characters into rows -/

theorem Paired.padTo {row : Row} (h : Paired row) (n : Nat) : Paired (row.padTo n) :=
  h.append_iff.mpr (.replicate _)

/-- Filling up a row adds no spacer. -/
theorem getElem?_padTo_eq_spacer {row : Row} {n i : Nat} :
    (row.padTo n)[i]? = some .spacer ↔ row[i]? = some .spacer := by
  by_cases hi : i < row.length
  · rw [Row.padTo, List.getElem?_append_left hi]
  · rw [Row.padTo, List.getElem?_append_right (Nat.le_of_not_lt hi), List.getElem?_replicate,
      List.getElem?_eq_none (Nat.le_of_not_lt hi)]
    split <;> simp

theorem paired_cellsOf {c : Char} (hc : cellWidth c = 1 ∨ cellWidth c = 2) :
    Paired (cellsOf c (cellWidth c)) := by
  rcases hc with hc | hc
  · rw [cellsOf, hc]
    exact .narrow hc .nil
  · rw [cellsOf, hc]
    exact .wide hc .nil

/-- Behind cells that are written over others, a row stays as it was. -/
theorem getElem?_overwrite {row cells : Row} {column i : Nat} (hi : column + cells.length ≤ i)
    (hrow : i < row.length) : (row.overwrite column cells)[i]? = row[i]? := by
  have hpad : row.padTo column = row := by
    rw [padTo, Nat.sub_eq_zero_of_le (by omega)]
    exact List.append_nil row
  have htake : (row.take column ++ cells).length = column + cells.length := by
    rw [List.length_append, List.length_take]
    omega
  rw [overwrite, hpad, List.getElem?_append_right (by omega), htake, List.getElem?_drop]
  congr 1
  omega

section Put

variable {row cells : Row} (h : Paired row) (hcells : Paired cells) (hne : cells ≠ [])
  {column : Nat}
include h hcells hne

/-- Cells can follow the first cells of a row unless these end in the middle of a wide character. -/
theorem paired_take_append_iff (rest : Row) :
    Paired ((row.padTo column).take column ++ cells ++ rest) ↔
      row[column]? ≠ some .spacer ∧ Paired rest := by
  have hpad := (h.padTo column).take_iff column
  rw [ne_eq, getElem?_padTo_eq_spacer] at hpad
  rw [List.append_assoc, ne_eq, ← hpad]
  constructor
  · intro hrow
    have hfirst : (cells ++ rest)[0]? ≠ some .spacer := by
      rw [List.getElem?_append_left (List.length_pos_iff.mpr hne)]
      exact hcells.getElem?_zero
    obtain ⟨htake, hrest⟩ := hrow.of_append hfirst
    exact ⟨htake, hcells.append_iff.mp hrest⟩
  · rintro ⟨htake, hrest⟩
    exact htake.append_iff.mpr (hcells.append_iff.mpr hrest)

/-- Written over others, cells leave whole characters if the range that they replace neither begins
nor ends in the middle of a wide character. -/
theorem paired_overwrite_iff :
    Paired (row.overwrite column cells) ↔
      row[column]? ≠ some .spacer ∧ row[column + cells.length]? ≠ some .spacer := by
  have hrest := (h.padTo column).drop_iff (column + cells.length)
  rw [ne_eq, getElem?_padTo_eq_spacer] at hrest
  rw [overwrite, paired_take_append_iff h hcells hne, hrest]

/-- Put in front of others, cells leave whole characters unless they come between the halves of a
wide character or push one of them out of the page. -/
theorem paired_insert_iff {width : Nat} (hroom : column + cells.length ≤ width) :
    Paired (row.insert width column cells) ↔
      row[column]? ≠ some .spacer ∧ row[width - cells.length]? ≠ some .spacer := by
  have hcolumn := row.le_length_padTo column
  have hinsert : row.insert width column cells = (row.padTo column).take column ++ cells ++
      ((row.padTo column).drop column).take (width - (column + cells.length)) := by
    rw [insert, List.take_append, List.take_of_length_le (by simp; omega)]
    simp [Nat.min_eq_left hcolumn]
  rw [hinsert, paired_take_append_iff h hcells hne]
  refine and_congr_right fun hfirst => ?_
  have hdrop := (h.padTo column).drop_iff column
  rw [ne_eq, getElem?_padTo_eq_spacer] at hdrop
  have hplace : column + (width - (column + cells.length)) = width - cells.length := by omega
  rw [(hdrop.mpr hfirst).take_iff, List.getElem?_drop, hplace, ne_eq, getElem?_padTo_eq_spacer]

end Put

end Row

namespace Page

/-! ### Pages of whole characters -/

def Whole (p : Page) : Prop := p.EachRow fun _ row => row.Paired

/-- A character that is put on the page cuts a wide one in two: where its cells go, or where the
cells end that it replaces or leaves on the page, there is a spacer. -/
def Cuts (p : Page) (c : Char) : Prop :=
  let width := min (cellWidth c) p.width
  let q := p.wrap width
  width ≠ 0 ∧ (q.current[q.column]? = some .spacer ∨
    q.current[if q.inserting then q.width - width else q.column + width]? = some .spacer)

instance (p : Page) (c : Char) : Decidable (p.Cuts c) := by
  unfold Cuts
  infer_instance

theorem Whole.wrap {p : Page} (h : p.Whole) (n : Nat) : (p.wrap n).Whole :=
  EachRow.wrap h (fun _ => .nil) n

theorem whole_iff {p : Page} :
    p.Whole ↔ (∀ (i : Nat) (row : Row), p.above.reverse[i]? = some row → row.Paired) ∧
      p.current.Paired := eachRow_iff

/-- Where whole characters can be put on a page of whole characters. -/
theorem Whole.place_iff {p : Page} (h : p.Whole) {cells : Row} (hcells : cells.Paired)
    (hne : cells ≠ []) (hroom : p.column + cells.length ≤ p.width) :
    (p.place cells).Whole ↔ p.current[p.column]? ≠ some .spacer ∧
      p.current[if p.inserting then p.width - cells.length else p.column + cells.length]? ≠
        some .spacer := by
  obtain ⟨habove, hcurrent⟩ := whole_iff.mp h
  refine whole_iff.trans ((and_iff_right habove).trans ?_)
  cases hmode : p.inserting with
  | true =>
    simp only [place, hmode, if_true]
    exact Row.paired_insert_iff hcurrent hcells hne hroom
  | false =>
    simp only [place, hmode, Bool.false_eq_true, if_false]
    exact Row.paired_overwrite_iff hcurrent hcells hne

/-- A page of whole characters remains one just if no character is cut. -/
theorem Whole.put_iff {p : Page} (h : p.Whole) (hwidth : 2 ≤ p.width) {c : Char}
    (hc : cellWidth c ≤ 2) : (p.put c).Whole ↔ ¬ p.Cuts c := by
  by_cases hzero : cellWidth c = 0
  · simp [Cuts, hzero, p.put_of_zero hzero, h]
  · have hmin : min (cellWidth c) p.width = cellWidth c := by omega
    have hcells : (cellsOf c (cellWidth c)).Paired := Row.paired_cellsOf (by omega)
    have hlength : (cellsOf c (cellWidth c)).length = cellWidth c := length_cellsOf (by omega)
    have hroom := p.column_wrap_le (Nat.le_trans hc hwidth)
    have hplace := (h.wrap (cellWidth c)).place_iff hcells (List.cons_ne_nil _ _)
    rw [hlength, width_wrap] at hplace
    rw [p.put_of_pos hzero, hmin, hplace hroom]
    simp only [Cuts, hmin, width_wrap, not_and_or, not_or]
    exact ⟨.inr, fun hspares => hspares.resolve_left (not_not_intro hzero)⟩

/-! ### Calls that cut nothing -/

def SparesText (p : Page) : List Char → Prop
  | [] => True
  | c :: s => ¬ p.Cuts c ∧ (p.put c).SparesText s

def SparesCall (p : Page) : Call → Prop
  | .write text => p.SparesText text.toList
  | .control _ | .insert _ => True

/-- No character that is written by calls cuts a wide one. -/
def Spares (p : Page) : List Call → Prop
  | [] => True
  | call :: calls => p.SparesCall call ∧ (call.on p).Spares calls

instance decidableSparesText : (p : Page) → (s : List Char) → Decidable (p.SparesText s)
  | _, [] => .isTrue trivial
  | p, c :: s => @instDecidableAnd _ _ _ (decidableSparesText (p.put c) s)

instance (p : Page) : (call : Call) → Decidable (p.SparesCall call)
  | .write text => p.decidableSparesText text.toList
  | .control _ | .insert _ => .isTrue trivial

instance decidableSpares : (p : Page) → (calls : List Call) → Decidable (p.Spares calls)
  | _, [] => .isTrue trivial
  | p, call :: calls => @instDecidableAnd _ _ _ (decidableSpares (call.on p) calls)

section Preserved

variable {p : Page} (hwidth : 2 ≤ p.width)
include hwidth

theorem Whole.putAll (h : p.Whole) {s : List Char} (hs : ∀ c ∈ s, cellWidth c ≤ 2)
    (hspares : p.SparesText s) : (p.putAll s).Whole := by
  induction s generalizing p with
  | nil => exact h
  | cons c s ih =>
    obtain ⟨hc, hs⟩ := List.forall_mem_cons.mp hs
    exact ih (by rwa [width_put]) ((h.put_iff hwidth hc).mpr hspares.1) hs hspares.2

theorem Whole.on (h : p.Whole) {call : Call} (hcall : call.AtMostWide)
    (hspares : p.SparesCall call) : (call.on p).Whole := by
  cases call with
  | write text =>
    have hput := h.putAll hwidth hcall hspares
    unfold Whole EachRow at hput ⊢
    rwa [← rows_recordText _ text] at hput
  | control c => exact EachRow.control h (fun _ => .nil) c
  | insert enabled => exact h

/-- Calls that cut nothing leave whole characters. -/
theorem Whole.replay (h : p.Whole) {calls : List Call} (hcalls : ∀ call ∈ calls, call.AtMostWide)
    (hspares : p.Spares calls) : (replay calls p).Whole := by
  induction calls generalizing p with
  | nil => exact h
  | cons call calls ih =>
    obtain ⟨hcall, hcalls⟩ := List.forall_mem_cons.mp hcalls
    exact ih (by rwa [width_on]) (h.on hwidth hcall hspares.1) hcalls hspares.2

end Preserved

theorem whole_empty (width : Nat) : (empty width).Whole := by
  refine whole_iff.mpr ⟨?_, .nil⟩
  intro i row hrow
  simp [Page.empty] at hrow

/-! ### Text at the end of a row -/

/-- No cells are behind the cursor. -/
def AtEnd (p : Page) : Prop := p.current.length ≤ p.column

namespace AtEnd

variable {p : Page}

theorem wrap (h : p.AtEnd) (n : Nat) : (p.wrap n).AtEnd := by
  unfold Page.wrap
  split
  · exact Nat.zero_le _
  · exact h

theorem place (h : p.AtEnd) (cells : Row) : (p.place cells).AtEnd := by
  have hlength : p.current.length ≤ p.column := h
  simp only [AtEnd, Page.place]
  split
  · simp only [Row.insert, Row.padTo, List.length_take, List.length_append, List.length_drop,
      List.length_replicate]
    omega
  · simp only [Row.overwrite, Row.padTo, List.length_take, List.length_append, List.length_drop,
      List.length_replicate]
    omega

theorem put (h : p.AtEnd) (c : Char) : (p.put c).AtEnd := by
  by_cases hc : cellWidth c = 0
  · rw [p.put_of_zero hc]
    exact h
  · rw [p.put_of_pos hc]
    exact (h.wrap _).place _

theorem recordText (h : p.AtEnd) (s : String) : (p.recordText s).AtEnd := by
  unfold Page.recordText
  split <;> exact h

/-- With nothing behind the cursor, there is nothing to cut. -/
theorem not_cuts (h : p.AtEnd) (c : Char) : ¬ p.Cuts c := by
  rintro ⟨-, hspacer⟩
  have hend : (p.wrap (min (cellWidth c) p.width)).current.length ≤ _ := h.wrap _
  have hroom := p.column_wrap_le (Nat.min_le_right (cellWidth c) p.width)
  rw [width_wrap] at hspacer
  rcases hspacer with hspacer | hspacer
  · rw [List.getElem?_eq_none hend] at hspacer
    cases hspacer
  · rw [List.getElem?_eq_none (by split <;> omega)] at hspacer
    cases hspacer

theorem sparesText (h : p.AtEnd) (s : List Char) : p.SparesText s ∧ (p.putAll s).AtEnd := by
  induction s generalizing p with
  | nil => exact ⟨trivial, h⟩
  | cons c s ih => exact ⟨⟨h.not_cuts c, (ih (h.put c)).1⟩, (ih (h.put c)).2⟩

end AtEnd

/-- Nothing is cut by text that is only written at the end of a row: without CR, BS and TAB. -/
theorem spares_of_forward {p : Page} (h : p.AtEnd) {calls : List Call}
    (hforward : ∀ c, .control c ∈ calls →
      c ≠ ControlChar.cr ∧ c ≠ ControlChar.bs ∧ c ≠ ControlChar.tab) : p.Spares calls := by
  induction calls generalizing p with
  | nil => trivial
  | cons call calls ih =>
    have hrest := fun c hc => hforward c (List.mem_cons_of_mem call hc)
    cases call with
    | write text =>
      obtain ⟨hspares, hend⟩ := h.sparesText text.toList
      exact ⟨hspares, ih (hend.recordText text) hrest⟩
    | control c =>
      obtain ⟨hcr, hbs, htab⟩ := hforward c List.mem_cons_self
      refine ⟨trivial, ih ?_ hrest⟩
      change (p.control c).AtEnd
      simp only [control, hcr, hbs, htab, if_false]
      repeat' split
      all_goals first | exact h | exact Nat.zero_le _
    | insert enabled => exact ⟨trivial, ih h hrest⟩

/-! ### What calls that cut nothing make of a page -/

/-- What is behind the cells of a character that replaces others stays where it is. -/
theorem getElem?_put {p : Page} (hfits : p.Fits) (hmode : p.inserting = false) {c : Char} {i : Nat}
    (hi : p.column + cellWidth c ≤ i) (hrow : i < p.current.length) :
    (p.put c).current[i]? = p.current[i]? := by
  by_cases hc : cellWidth c = 0
  · rw [p.put_of_zero hc]
  · have hlength : p.current.length ≤ p.width := (eachRow_iff.mp hfits.rows).2
    have hmin : min (cellWidth c) p.width = cellWidth c := by omega
    have hwrap : p.wrap (cellWidth c) = p := if_neg (by omega)
    have hcells : (cellsOf c (cellWidth c)).length = cellWidth c := length_cellsOf (by omega)
    rw [p.put_of_pos hc, hmin, hwrap]
    simp only [place, hmode, Bool.false_eq_true, if_false]
    exact Row.getElem?_overwrite (by omega) hrow

/-- After calls to an empty page that cut no wide character, each row is of whole characters: each
spacer directly follows a wide character, and each wide character is directly followed by a spacer.
A row is as wide as it is long and within the width. Text that is only written at the end of a row
cuts nothing more. A further character leaves it so just if it cuts no wide
character either; and then, if it replaces others, what is behind them is shown at the same column
as before. -/
theorem Spares.paired {width : Nat} (hwidth : 2 ≤ width) {calls : List Call}
    (hcalls : ∀ call ∈ calls, call.AtMostWide) (hspares : (empty width).Spares calls) :
    let p := replay calls (empty width)
    (p.EachRow fun _ row => row.Paired ∧ row.displayWidth = row.length ∧ row.length ≤ width ∧
      (∀ c, .glyph c ∈ row → cellWidth c = 1 ∨ cellWidth c = 2) ∧ row[0]? ≠ some .spacer ∧
      ∀ i, row[i + 1]? = some .spacer ↔ ∃ c, row[i]? = some (.glyph c) ∧ cellWidth c = 2) ∧
      (p.AtEnd → ∀ more : List Call, (∀ c, .control c ∈ more →
        c ≠ ControlChar.cr ∧ c ≠ ControlChar.bs ∧ c ≠ ControlChar.tab) → p.Spares more) ∧
      ∀ c, cellWidth c ≤ 2 →
        ((p.put c).Whole ↔ ¬ p.Cuts c) ∧
          (¬ p.Cuts c → p.inserting = false → ∀ i d, p.column + cellWidth c ≤ i →
            p.current[i]? = some (.glyph d) →
              (p.put c).current[i]? = some (.glyph d) ∧
                Row.displayWidth (p.current.take i) = i ∧
                Row.displayWidth ((p.put c).current.take i) = i) := by
  intro p
  have hempty : (empty width).width = width := by simp [Page.empty]; omega
  have hp : p.width = width := (width_replay calls _).trans hempty
  have hwhole : p.Whole := (whole_empty width).replay (hempty.symm ▸ hwidth) hcalls hspares
  have hfits : p.Fits := (Fits.empty width).replay calls
  refine ⟨?_, fun hend more hmore => spares_of_forward hend hmore, fun c hc => ?_⟩
  · intro i row hrow
    have hpaired := hwhole i row hrow
    exact ⟨hpaired, hpaired.displayWidth_eq, hp ▸ hfits.rows i row hrow, Row.paired_iff.mp hpaired⟩
  · have hput := hwhole.put_iff (hp ▸ hwidth) hc
    refine ⟨hput, ?_⟩
    intro hcuts hmode i d hi hd
    have hcurrent := (whole_iff.mp hwhole).2
    have hnext := (whole_iff.mp (hput.mpr hcuts)).2
    have hsame := getElem?_put hfits hmode hi (List.getElem?_eq_some_iff.mp hd).1
    have hd' := hsame.trans hd
    exact ⟨hd', hcurrent.displayWidth_take hd, hnext.displayWidth_take hd'⟩

/-- A wide character in the middle of a row, put there in insert mode and then replaced. -/
theorem spares_paired_inserted :
    let calls := [.write "世ab", .control ControlChar.cr, .insert true, .write "x", .insert false]
    let p := replay calls (empty 80)
    (∀ call ∈ calls, call.AtMostWide) ∧ (empty 80).Spares calls ∧ ¬ p.Cuts '界' ∧
      p.current = [.glyph 'x', .glyph '世', .spacer, .glyph 'a', .glyph 'b'] ∧
      p.current.displayWidth = 5 ∧ (p.put '界').Whole ∧
      (p.put '界').current[4]? = some (.glyph 'b') := by
  intro calls p
  have hcalls : ∀ call ∈ calls, call.AtMostWide := by decide +kernel
  have hspares : (empty 80).Spares calls := by decide +kernel
  have hcuts : ¬ p.Cuts '界' := by decide +kernel
  have hcurrent : p.current = [.glyph 'x', .glyph '世', .spacer, .glyph 'a', .glyph 'b'] := by
    decide +kernel
  obtain ⟨hrows, -, hnext⟩ := Spares.paired (by decide) hcalls hspares
  obtain ⟨hput, hbehind⟩ := hnext '界' (by decide +kernel)
  have hrow := hrows 0 p.current (by decide +kernel)
  refine ⟨hcalls, hspares, hcuts, hcurrent, ?_, hput.mpr hcuts, ?_⟩
  · rw [hrow.2.1, hcurrent]
    rfl
  · exact (hbehind hcuts rfl 4 'b' (by decide +kernel) (by decide +kernel)).1

/-- A character that replaces the first half of a wide one leaves the second half behind, and what
follows is no longer shown at its column. -/
theorem not_whole_overwritten :
    let p := replay [.write "世b", .control ControlChar.cr, .write "a"] (empty 80)
    cellWidth '世' = 2 ∧ p.current = [.glyph 'a', .spacer, .glyph 'b'] ∧ ¬ p.Whole ∧
      p.current.displayWidth = 2 ∧ p.line 0 = "ab" := by
  intro p
  have hcurrent : p.current = [.glyph 'a', .spacer, .glyph 'b'] := by decide +kernel
  refine ⟨by decide +kernel, hcurrent, ?_, ?_, by decide +kernel⟩
  · intro hwhole
    have hpaired := (whole_iff.mp hwhole).2
    rw [hcurrent] at hpaired
    cases hpaired.of_narrow (by decide)
  · rw [hcurrent]
    decide

end Page

end ControlStream
