import Mathlib.Algebra.GroupWithZero.Nat
import Mathlib.Data.Fin.Basic
import Mathlib.Data.List.Induction

namespace ScratchOs.Data

/-! A scrolling terminal of `rows` by `cols` cells.

A character goes to the cell under the cursor, the cursor moves on, and past
the last row the screen scrolls. What a scroll leaves on the last row is a
parameter, so that a terminal that erases that row only in part can be compared
with one that erases all of it.
-/

inductive Input (Cell : Type) where
  | newline
  | glyph (cell : Cell)

@[ext] structure Terminal (rows cols : Nat) (Cell : Type) where
  cells : Fin rows → Fin cols → Cell
  row : Fin rows
  col : Fin cols

namespace Terminal

variable {rows cols : Nat} {Cell : Type}

/-- The input ends the line the cursor is on. -/
def LineEnds (col : Fin cols) : Input Cell → Prop
  | .newline => True
  | .glyph _ => col.val + 1 = cols

instance (col : Fin cols) (input : Input Cell) : Decidable (LineEnds col input) :=
  match input with
  | .newline => inferInstanceAs (Decidable True)
  | .glyph _ => inferInstanceAs (Decidable (col.val + 1 = cols))

/-- The cursor would leave the last row. -/
def Scrolls (row : Fin rows) (col : Fin cols) (input : Input Cell) : Prop :=
  LineEnds col input ∧ row.val + 1 = rows

instance (row : Fin rows) (col : Fin cols) (input : Input Cell) : Decidable (Scrolls row col input) :=
  inferInstanceAs (Decidable (_ ∧ _))

def nextRow (row : Fin rows) (col : Fin cols) (input : Input Cell) : Fin rows :=
  if LineEnds col input then if below : row.val + 1 < rows then ⟨row.val + 1, below⟩ else row else row

def nextCol [NeZero cols] (col : Fin cols) : Input Cell → Fin cols
  | .newline => 0
  | .glyph _ => col + 1

def write (terminal : Terminal rows cols Cell) : Input Cell → Terminal rows cols Cell
  | .newline => terminal
  | .glyph cell =>
      { terminal with cells := fun row col =>
          if row = terminal.row ∧ col = terminal.col then cell else terminal.cells row col }

/-- Every row moves up by one; `erase` gives the last row from its column and
what stood there. -/
def scroll (erase : Fin cols → Cell → Cell) (terminal : Terminal rows cols Cell) : Terminal rows cols Cell where
  cells row col :=
    if below : row.val + 1 < rows then terminal.cells ⟨row.val + 1, below⟩ col
    else erase col (terminal.cells row col)
  row := terminal.row
  col := terminal.col

def print [NeZero cols] (erase : Fin cols → Cell → Cell) (terminal : Terminal rows cols Cell)
    (input : Input Cell) : Terminal rows cols Cell where
  cells :=
    if Scrolls terminal.row terminal.col input then ((terminal.write input).scroll erase).cells
    else (terminal.write input).cells
  row := nextRow terminal.row terminal.col input
  col := nextCol terminal.col input

def printAll [NeZero cols] (erase : Fin cols → Cell → Cell) (inputs : List (Input Cell))
    (terminal : Terminal rows cols Cell) : Terminal rows cols Cell :=
  inputs.foldl (print erase) terminal

/-- The reference terminal fills the whole last row. -/
def eraseRow (blank : Cell) (_ : Fin cols) (_ : Cell) : Cell := blank

/-- A terminal that spares the last column. -/
def eraseButCorner (blank : Cell) (col : Fin cols) (cell : Cell) : Cell :=
  if col.val + 1 = cols then cell else blank

/-! The scrolls of an output.

A scroll is recorded with the cell that was put into the bottom right corner
just before it, or `none` when a newline caused it. -/

def cornerCell : Input Cell → Option Cell
  | .newline => none
  | .glyph cell => some cell

def scrollOf (row : Fin rows) (col : Fin cols) (input : Input Cell) : List (Option Cell) :=
  if Scrolls row col input then [cornerCell input] else []

def scrolls [NeZero cols] : Fin rows → Fin cols → List (Input Cell) → List (Option Cell)
  | _, _, [] => []
  | row, col, input :: rest =>
      scrollOf row col input ++ scrolls (nextRow row col input) (nextCol col input) rest

/-- What was last put into the corner, `corner` before any of the scrolls. -/
def held (corner : Cell) (events : List (Option Cell)) : Cell :=
  events.foldl (fun cell event => event.getD cell) corner

/-- The corner was blank whenever that matters for the screen shown in the end:
after the last scroll, and at each of the last `rows - 1` scrolls by a newline
except the very first scroll. -/
structure CornerBlank (rows : Nat) (blank corner : Cell) (events : List (Option Cell)) : Prop where
  last : events ≠ [] → held corner events = blank
  newlines : ∀ before after, events = before ++ none :: after → before ≠ [] → after.length + 1 < rows →
    held corner before = blank

theorem held_append_singleton (corner : Cell) (events : List (Option Cell)) (event : Option Cell) :
    held corner (events ++ [event]) = event.getD (held corner events) := by
  rw [held, List.foldl_append]
  rfl

/-! Where the two terminals can differ: only in the last column, on the rows
that came up from the last one. -/

structure Alike (blank corner : Cell) (events : List (Option Cell))
    (shown reference : Terminal rows cols Cell) : Prop where
  row : shown.row = reference.row
  col : shown.col = reference.col
  /-- Once the screen has scrolled, the cursor stays on the last row. -/
  bottom : events ≠ [] → reference.row.val + 1 = rows
  inner : ∀ row col, col.val + 1 < cols → shown.cells row col = reference.cells row col
  old : ∀ row col, events.length + row.val + 1 < rows → shown.cells row col = reference.cells row col
  edge : ∀ row (col : Fin cols), col.val + 1 = cols → ∀ before event after, events = before ++ event :: after →
    row.val + after.length + 2 = rows →
      shown.cells row col = event.getD (held corner before) ∧
      reference.cells row col = event.getD (if before = [] then corner else blank)
  corner : ∀ row col, row.val + 1 = rows → col.val + 1 = cols →
    shown.cells row col = held corner events ∧
    reference.cells row col = if events = [] then corner else blank

variable {blank corner : Cell} {events : List (Option Cell)} {shown reference : Terminal rows cols Cell}

theorem Alike.refl (terminal : Terminal rows cols Cell)
    (corner_eq : ∀ row col, row.val + 1 = rows → col.val + 1 = cols → terminal.cells row col = corner) :
    Alike blank corner [] terminal terminal where
  row := rfl
  col := rfl
  bottom nonempty := absurd rfl nonempty
  inner _ _ _ := rfl
  old _ _ _ := rfl
  edge := by simp
  corner row col last edge := ⟨corner_eq row col last edge, corner_eq row col last edge⟩

theorem write_cells (terminal : Terminal rows cols Cell) (input : Input Cell) (row : Fin rows) (col : Fin cols) :
    (terminal.write input).cells row col =
      if row = terminal.row ∧ col = terminal.col then (cornerCell input).getD (terminal.cells row col)
      else terminal.cells row col := by
  cases input with
  | newline => simp [write, cornerCell]
  | glyph cell => rfl

/-- Writing treats both terminals alike. -/
theorem Alike.write_same (alike : Alike blank corner events shown reference) (input : Input Cell)
    {row : Fin rows} {col : Fin cols} (same : shown.cells row col = reference.cells row col) :
    (shown.write input).cells row col = (reference.write input).cells row col := by
  rw [write_cells, write_cells, alike.row, alike.col, same]

/-- A scroll happens with the cursor on the last row, and a character that
causes one goes into the corner. -/
theorem write_corner {terminal : Terminal rows cols Cell} {input : Input Cell}
    (scrolled : Scrolls terminal.row terminal.col input) {row : Fin rows} {col : Fin cols}
    (last : row.val + 1 = rows) (edge : col.val + 1 = cols) :
    (terminal.write input).cells row col = (cornerCell input).getD (terminal.cells row col) := by
  have here : row = terminal.row := Fin.ext (by have := scrolled.2; omega)
  cases input with
  | newline => rfl
  | glyph cell =>
      have ends : terminal.col.val + 1 = cols := scrolled.1
      have there : col = terminal.col := Fin.ext (by omega)
      rw [write_cells, if_pos ⟨here, there⟩]

theorem write_other_row {terminal : Terminal rows cols Cell} {input : Input Cell} {row : Fin rows} {col : Fin cols}
    (different : row ≠ terminal.row) : (terminal.write input).cells row col = terminal.cells row col := by
  rw [write_cells, if_neg fun same => different same.1]

theorem write_other_col {terminal : Terminal rows cols Cell} {input : Input Cell} {row : Fin rows} {col : Fin cols}
    (different : col ≠ terminal.col) : (terminal.write input).cells row col = terminal.cells row col := by
  rw [write_cells, if_neg fun same => different same.2]

variable [NeZero cols]

theorem Alike.print_scrolled (alike : Alike blank corner events shown reference) {input : Input Cell}
    (scrolled : Scrolls reference.row reference.col input) :
    Alike blank corner (events ++ [cornerCell input]) (shown.print (eraseButCorner blank) input)
      (reference.print (eraseRow blank) input) := by
  have ends := scrolled.1
  have bottom := scrolled.2
  have scrolledShown : Scrolls shown.row shown.col input := by rwa [alike.row, alike.col]
  have stays : nextRow reference.row reference.col input = reference.row := by
    rw [nextRow, if_pos ends, dif_neg (by omega)]
  constructor
  · simp only [print, alike.row, alike.col]
  · simp only [print, alike.col]
  · intro _
    simp only [print, stays]
    exact bottom
  · intro row col inside
    simp only [print, if_pos scrolled, if_pos scrolledShown, scroll]
    by_cases below : row.val + 1 < rows
    · rw [dif_pos below, dif_pos below]
      exact alike.write_same input (alike.inner _ _ inside)
    · rw [dif_neg below, dif_neg below, eraseButCorner, if_neg (by omega), eraseRow]
  · intro row col above
    rw [List.length_append, List.length_singleton] at above
    have below : row.val + 1 < rows := by omega
    simp only [print, if_pos scrolled, if_pos scrolledShown, scroll, dif_pos below]
    exact alike.write_same input (alike.old _ _ (by simp only; omega))
  · intro row col edge before event after split place
    have below : row.val + 1 < rows := by omega
    simp only [print, if_pos scrolled, if_pos scrolledShown, scroll, dif_pos below]
    -- The last scroll brings up the corner; an earlier one is a row further up.
    cases after using List.reverseRecOn with
    | nil =>
        obtain ⟨rfl, single⟩ := List.append_inj' split rfl
        cases single
        have last : row.val + 1 + 1 = rows := by simpa using place
        obtain ⟨shownCorner, referenceCorner⟩ := alike.corner ⟨row.val + 1, below⟩ col last edge
        rw [write_corner scrolledShown last edge, write_corner scrolled last edge, shownCorner, referenceCorner]
        exact ⟨rfl, rfl⟩
    | append_singleton rest final =>
        have shorter : events ++ [cornerCell input] = (before ++ event :: rest) ++ [final] := by
          rw [split, List.append_assoc, List.cons_append]
        obtain ⟨earlier, _⟩ := List.append_inj' shorter rfl
        rw [List.length_append, List.length_singleton] at place
        have moved : (⟨row.val + 1, below⟩ : Fin rows) ≠ reference.row := fun same => by
          have value := congrArg Fin.val same
          simp only at value
          omega
        have place' : (⟨row.val + 1, below⟩ : Fin rows).val + rest.length + 2 = rows := by simp only; omega
        rw [write_other_row (alike.row ▸ moved), write_other_row moved]
        exact alike.edge _ col edge before event rest earlier place'
  · intro row col last edge
    simp only [print, if_pos scrolled, if_pos scrolledShown, scroll]
    rw [dif_neg (by omega), dif_neg (by omega), eraseButCorner, if_pos edge, eraseRow,
      write_corner scrolledShown last edge, (alike.corner row col last edge).1, held_append_singleton]
    exact ⟨rfl, by simp⟩

theorem Alike.print_within (alike : Alike blank corner events shown reference) {input : Input Cell}
    (within : ¬ Scrolls reference.row reference.col input) :
    Alike blank corner events (shown.print (eraseButCorner blank) input)
      (reference.print (eraseRow blank) input) := by
  have withinShown : ¬ Scrolls shown.row shown.col input := by rwa [alike.row, alike.col]
  -- Off the last row nothing has scrolled yet; on it the last column is not written.
  have kept : events ≠ [] → ∀ col : Fin cols, col.val + 1 = cols → ∀ row,
      (reference.write input).cells row col = reference.cells row col ∧
      (shown.write input).cells row col = shown.cells row col := by
    intro nonempty col edge row
    cases input with
    | newline => exact ⟨rfl, rfl⟩
    | glyph cell =>
        have apart : col ≠ reference.col := fun same => within ⟨by rw [← same]; exact edge, alike.bottom nonempty⟩
        exact ⟨write_other_col apart, write_other_col (alike.col ▸ apart)⟩
  constructor
  · simp only [print, alike.row, alike.col]
  · simp only [print, alike.col]
  · intro nonempty
    have bottom := alike.bottom nonempty
    have continues : ¬ LineEnds reference.col input := fun ends => within ⟨ends, bottom⟩
    simp only [print, nextRow, if_neg continues]
    exact bottom
  · intro row col inside
    simp only [print, if_neg within, if_neg withinShown]
    exact alike.write_same input (alike.inner _ _ inside)
  · intro row col above
    simp only [print, if_neg within, if_neg withinShown]
    exact alike.write_same input (alike.old _ _ above)
  · intro row col edge before event after split place
    obtain ⟨keptReference, keptShown⟩ := kept (by simp [split]) col edge row
    simp only [print, if_neg within, if_neg withinShown, keptReference, keptShown]
    exact alike.edge row col edge before event after split place
  · intro row col last edge
    simp only [print, if_neg within, if_neg withinShown]
    have untouched : ∀ {terminal : Terminal rows cols Cell}, ¬ Scrolls terminal.row terminal.col input →
        (terminal.write input).cells row col = terminal.cells row col := by
      intro terminal stays
      cases input with
      | newline => rfl
      | glyph cell =>
          rw [write_cells, if_neg]
          exact fun same => stays ⟨by rw [← same.2]; exact edge, by rw [← same.1]; exact last⟩
    rw [untouched withinShown, untouched within]
    exact alike.corner row col last edge

theorem Alike.print (alike : Alike blank corner events shown reference) (input : Input Cell) :
    Alike blank corner (events ++ scrollOf reference.row reference.col input)
      (shown.print (eraseButCorner blank) input) (reference.print (eraseRow blank) input) := by
  rw [scrollOf]
  split
  · rename_i scrolled
    exact alike.print_scrolled scrolled
  · rename_i within
    rw [List.append_nil]
    exact alike.print_within within

theorem Alike.printAll (alike : Alike blank corner events shown reference) (inputs : List (Input Cell)) :
    Alike blank corner (events ++ scrolls reference.row reference.col inputs)
      (printAll (eraseButCorner blank) inputs shown) (printAll (eraseRow blank) inputs reference) := by
  induction inputs generalizing events shown reference with
  | nil =>
      rw [scrolls, List.append_nil]
      exact alike
  | cons input rest ih =>
      rw [scrolls, ← List.append_assoc]
      exact ih (alike.print input)

omit [NeZero cols] in
theorem Alike.edge_eq (alike : Alike blank corner events shown reference)
    (clean : CornerBlank rows blank corner events) {row : Fin rows} {col : Fin cols} (edge : col.val + 1 = cols)
    (above : row.val + 1 < rows) : shown.cells row col = reference.cells row col := by
  by_cases old : events.length + row.val + 1 < rows
  · exact alike.old row col old
  -- The row came up from the last one with the scroll at this index.
  have inside : events.length + row.val + 1 - rows < events.length := by omega
  generalize index : events.length + row.val + 1 - rows = scrolled at inside
  have split : events = events.take scrolled ++ events.get ⟨scrolled, inside⟩ :: events.drop (scrolled + 1) := by
    rw [List.get_eq_getElem, ← List.drop_eq_getElem_cons, List.take_append_drop]
  generalize events.take scrolled = before at split
  generalize events.get ⟨scrolled, inside⟩ = event at split
  generalize remaining : events.drop (scrolled + 1) = after at split
  have count : after.length = events.length - (scrolled + 1) := by rw [← remaining, List.length_drop]
  obtain ⟨shownCell, referenceCell⟩ := alike.edge row col edge before event after split (by omega)
  rw [shownCell, referenceCell]
  cases event with
  | some cell => rfl
  | none =>
      by_cases first : before = []
      · rw [if_pos first, first]
        rfl
      · rw [if_neg first]
        exact clean.newlines before after split first (by omega)

theorem Alike.eq_iff (alike : Alike blank corner events shown reference) :
    shown = reference ↔ CornerBlank rows blank corner events := by
  have someRow : 0 < rows := Nat.lt_of_le_of_lt (Nat.zero_le _) reference.row.isLt
  have someCol : 0 < cols := Nat.pos_of_ne_zero (NeZero.ne cols)
  constructor
  · intro same
    constructor
    · intro nonempty
      obtain ⟨shownCell, referenceCell⟩ := alike.corner ⟨rows - 1, by omega⟩ ⟨cols - 1, by omega⟩
        (by simp only; omega) (by simp only; omega)
      rw [if_neg nonempty, ← same, shownCell] at referenceCell
      exact referenceCell
    · intro before after split nonempty bound
      obtain ⟨shownCell, referenceCell⟩ := alike.edge ⟨rows - after.length - 2, by omega⟩ ⟨cols - 1, by omega⟩
        (by simp only; omega) before none after split (by simp only; omega)
      rw [if_neg nonempty, ← same, shownCell] at referenceCell
      exact referenceCell
  · intro clean
    apply Terminal.ext _ alike.row alike.col
    funext row col
    by_cases inside : col.val + 1 < cols
    · exact alike.inner row col inside
    have edge : col.val + 1 = cols := by omega
    by_cases above : row.val + 1 < rows
    · exact alike.edge_eq clean edge above
    · obtain ⟨shownCell, referenceCell⟩ := alike.corner row col (by omega) edge
      rw [shownCell, referenceCell]
      by_cases quiet : events = []
      · rw [if_pos quiet, quiet]
        rfl
      · rw [if_neg quiet]
        exact clean.last quiet

/-- Sparing the corner shows in the end exactly when it was not blank at some
scroll whose row is still on the screen. -/
theorem printAll_eq_iff (terminal : Terminal rows cols Cell) (inputs : List (Input Cell))
    (corner_eq : ∀ row col, row.val + 1 = rows → col.val + 1 = cols → terminal.cells row col = corner) :
    printAll (eraseButCorner blank) inputs terminal = printAll (eraseRow blank) inputs terminal ↔
      CornerBlank rows blank corner (scrolls terminal.row terminal.col inputs) :=
  ((Alike.refl terminal corner_eq).printAll inputs).eq_iff

end Terminal

end ScratchOs.Data
