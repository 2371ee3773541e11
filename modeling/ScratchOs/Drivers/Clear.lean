import ScratchOs.Drivers.Console

namespace ScratchOs

open Data Screen

/-! `clear_screen`. It prints a space into every cell, but gives `print_char` the
row where it expects the column and the column where it expects the row. -/

namespace Display

def calculateCursorOffset (col row : Int) : Int := row * maxCols + col

def clearRow (display : Display) (row : Nat) : Display :=
  (List.range maxCols.toNat).foldl (fun display (col : Nat) => printChar charSpace row col display) display

def clearScreen (display : Display) : Display :=
  setCursorOffset (calculateCursorOffset 0 0) ((List.range maxRows.toNat).foldl clearRow display)

/-- What its name promises. -/
structure Cleared (before after : Display) : Prop where
  cells : ∀ row col : Nat, row < 25 → col < 80 → cellAt after.video row col = blankCell
  cursor : after.readCursor = 0
  inside : WritesInside before after

variable {before display middle after : Display} {index : Int} {row col count : Nat} {corner : Cell}

/-! What is stored. -/

/-- Nothing that was stored is forgotten. -/
def Extends (before after : Display) : Prop := ∃ new, after.written = new ++ before.written

/-- Stored since `before`. -/
def Stores (index : Int) (before after : Display) : Prop :=
  ∃ new, after.written = new ++ before.written ∧ index ∈ new

theorem Extends.refl (display : Display) : Extends display display := ⟨[], rfl⟩

theorem Extends.trans (first : Extends before middle) (second : Extends middle after) : Extends before after := by
  obtain ⟨early, earlyEq⟩ := first
  obtain ⟨late, lateEq⟩ := second
  exact ⟨late ++ early, by rw [lateEq, earlyEq, List.append_assoc]⟩

theorem Stores.extended (stored : Stores index before middle) (more : Extends middle after) :
    Stores index before after := by
  obtain ⟨early, earlyEq, member⟩ := stored
  obtain ⟨late, lateEq⟩ := more
  exact ⟨late ++ early, by rw [lateEq, earlyEq, List.append_assoc], List.mem_append_right late member⟩

theorem Stores.from_earlier (less : Extends before middle) (stored : Stores index middle after) :
    Stores index before after := by
  obtain ⟨early, earlyEq⟩ := less
  obtain ⟨late, lateEq, member⟩ := stored
  exact ⟨late ++ early, by rw [lateEq, earlyEq, List.append_assoc], List.mem_append_left early member⟩

theorem Stores.extends (stored : Stores index before after) : Extends before after := by
  obtain ⟨new, newEq, _⟩ := stored
  exact ⟨new, newEq⟩

theorem Stores.inside (stored : Stores index before after) (inside : WritesInside before after) :
    0 ≤ index ∧ index < 2 * maxRows * maxCols := by
  obtain ⟨new, newEq, member⟩ := stored
  obtain ⟨same, sameEq, within⟩ := inside
  rw [newEq] at sameEq
  exact within index (List.append_cancel_right sameEq ▸ member)

/-- A space at a place that need not be on the screen: it is stored there, the
cursor moves behind it, and one scroll follows if that is off the screen. -/
theorem printSpace_spec (display : Display) (row col : Nat) (near : 80 * row + col < 65000) :
    (printChar charSpace col row display).video =
        (if 80 * row + col + 1 < 2000 then cellVideo display.video (80 * row + col) charSpace
          else scrolledVideo (cellVideo display.video (80 * row + col) charSpace)) ∧
      Stores (2 * (80 * row + col : Nat)) display (printChar charSpace col row display) := by
  obtain ⟨place, placeEq⟩ : ∃ place, place = 80 * row + col := ⟨_, rfl⟩
  rw [← placeEq] at near ⊢
  let drawn := (display.store (2 * place) charSpace).store (2 * place + 1) whiteOnBlack
  have run : printChar charSpace col row display = handleScrollScreen (setCursorOffset (place + 1 : Nat) drawn) := by
    have set : (0 : Int) ≤ col ∧ (0 : Int) ≤ row := by omega
    have half : (2 * (place : Int) + 2).tdiv 2 = (place + 1 : Nat) := by
      rw [show 2 * (place : Int) + 2 = 2 * (place + 1 : Nat) by omega]
      exact Int.mul_tdiv_cancel_left _ (by decide)
    have newline : charSpace ≠ charNewline := by decide
    have tab : charSpace ≠ charTab := by decide
    have back : charSpace ≠ charBackspace := by decide
    simp only [printChar, if_pos set, getScreenOffset_eq, ← placeEq, drawChar, newline, tab, back, if_false, half]
    rfl
  have moved : (setCursorOffset (place + 1 : Nat) drawn).cursor = place + 1 := by
    have position := setCursorOffset_cursor drawn (show 0 ≤ ((place + 1 : Nat) : Int) by omega) (by omega)
    omega
  have bytes : (setCursorOffset (place + 1 : Nat) drawn).video = cellVideo display.video place charSpace := by
    funext index
    change Function.update (Function.update display.video _ _) _ _ index = _
    simp only [Function.update_apply, cellVideo]
    by_cases first : index = 2 * place
    · rw [if_pos first, if_neg (by omega), if_pos first]
    · rw [if_neg first, if_neg first]
  obtain ⟨video, _, scrolled⟩ := handleScrollScreen_spec (setCursorOffset (place + 1 : Nat) drawn)
  rw [moved, bytes] at video
  obtain ⟨new, newEq, _⟩ := scrolled
  rw [run]
  refine ⟨video, Stores.extended ⟨[2 * place + 1, 2 * place], rfl, by simp⟩ ⟨new, newEq⟩⟩

/-! What remains on the screen. -/

/-- The lowest rows are blank, apart from their last column: nothing is printed
there, and a scroll moves the cell in the corner up but does not erase it. -/
structure Wiped (rows : Nat) (corner : Cell) (video : Int → Byte) : Prop where
  kept : cellAt video 24 79 = corner
  blank : ∀ row col : Nat, row < 25 → col < 80 → 25 ≤ row + rows →
    cellAt video row col = if col = 79 then corner else blankCell

theorem Wiped.none (video : Int → Byte) : Wiped 0 (cellAt video 24 79) video :=
  ⟨rfl, fun row _ below _ low => by omega⟩

theorem Wiped.fewer {rows fewer : Nat} {video : Int → Byte} (wiped : Wiped rows corner video) (le : fewer ≤ rows) :
    Wiped fewer corner video :=
  ⟨wiped.kept, fun row col rowLt colLt low => wiped.blank row col rowLt colLt (by omega)⟩

theorem Wiped.space {rows place : Nat} {video : Int → Byte} (wiped : Wiped rows corner video)
    (inner : place % 80 ≠ 79) : Wiped rows corner (cellVideo video place charSpace) := by
  constructor
  · rw [cellAt_cellVideo, if_neg (by omega)]
    exact wiped.kept
  · intro row col rowLt colLt low
    rw [cellAt_cellVideo]
    by_cases here : 80 * row + col = place
    · rw [if_pos here, if_neg (by omega)]
      rfl
    · rw [if_neg here]
      exact wiped.blank row col rowLt colLt low

theorem Wiped.scroll {rows : Nat} {video : Int → Byte} (wiped : Wiped rows corner video) :
    Wiped (rows + 1) corner (scrolledVideo video) := by
  constructor
  · rw [cellAt_scrolledVideo video (by decide) (by decide), if_neg (by decide), if_pos (by decide)]
    exact wiped.kept
  · intro row col rowLt colLt low
    rw [cellAt_scrolledVideo video rowLt colLt]
    by_cases above : row + 1 < 25
    · rw [if_pos above]
      exact wiped.blank (row + 1) col above colLt (by omega)
    · obtain rfl : row = 24 := by omega
      rw [if_neg above]
      by_cases edge : col = 79
      · rw [if_pos (by omega), if_pos edge, edge]
        exact wiped.kept
      · rw [if_neg (by omega), if_neg edge]

/-- The inner loop: from the column 25 on every space is printed below the
screen, and the screen scrolls. -/
theorem clearRow_wiped {rows : Nat} (rowLt : row < 25) (countLe : count ≤ 80) (wiped : Wiped rows corner display.video) :
    Wiped (rows + (count - 25)) corner
      ((List.range count).foldl (fun display (col : Nat) => printChar charSpace row col display) display).video := by
  induction count with
  | zero => exact wiped
  | succ count ih =>
      have so := ih (by omega)
      rw [foldl_range_succ, (printSpace_spec _ count row (by omega)).1]
      have drawn := @Wiped.space _ _ (80 * count + row) _ so (by omega)
      by_cases onScreen : 80 * count + row + 1 < 2000
      · rw [if_pos onScreen]
        exact drawn.fewer (by omega)
      · rw [if_neg onScreen]
        exact drawn.scroll.fewer (by omega)

theorem clearRows_wiped (countLe : count ≤ 25) :
    Wiped (55 * count) (cellAt display.video 24 79) ((List.range count).foldl clearRow display).video := by
  induction count with
  | zero => exact Wiped.none display.video
  | succ count ih =>
      rw [foldl_range_succ]
      exact (@clearRow_wiped _ count 80 _ _ (by omega) (by decide) (ih (by omega))).fewer (by omega)

/-! The whole of it. -/

theorem clearRow_extends (countLe : count ≤ 80) (rowLt : row < 25) :
    Extends display
      ((List.range count).foldl (fun display (col : Nat) => printChar charSpace row col display) display) := by
  induction count with
  | zero => exact .refl display
  | succ count ih =>
      rw [foldl_range_succ]
      exact (ih (by omega)).trans (printSpace_spec _ count row (by omega)).2.extends

theorem clearRows_extends (countLe : count ≤ 25) : Extends display ((List.range count).foldl clearRow display) := by
  induction count with
  | zero => exact .refl display
  | succ count ih =>
      rw [foldl_range_succ]
      exact (ih (by omega)).trans (clearRow_extends (by decide) (by omega))

theorem clearRow_eq (display : Display) (row : Nat) : clearRow display row =
    (List.range 80).foldl (fun display (col : Nat) => printChar charSpace row col display) display := by
  have cols : maxCols.toNat = 80 := rfl
  rw [clearRow, cols]

theorem clearScreen_eq (display : Display) :
    clearScreen display = setCursorOffset 0 ((List.range 25).foldl clearRow display) := by
  have rows : maxRows.toNat = 25 := rfl
  have origin : calculateCursorOffset 0 0 = 0 := rfl
  rw [clearScreen, rows, origin]

theorem setCursorOffset_video (offset : Int) (display : Display) :
    (setCursorOffset offset display).video = display.video := rfl

theorem setCursorOffset_written (offset : Int) (display : Display) :
    (setCursorOffset offset display).written = display.written := rfl

/-- A row of the loop ends 80 rows further down. -/
theorem clearRow_stores (display : Display) (rowLt : row < 25) :
    Stores (2 * (80 * 79 + row : Nat)) display (clearRow display row) := by
  rw [clearRow_eq, foldl_range_succ]
  exact (printSpace_spec _ 79 row (by omega)).2.from_earlier (clearRow_extends (by decide) rowLt)

theorem clearScreen_stores (display : Display) : Stores (2 * (80 * 79 + 24 : Nat)) display (clearScreen display) := by
  have last := (clearRow_stores ((List.range 24).foldl clearRow display) (show 24 < 25 by decide)).from_earlier
    (clearRows_extends (by decide))
  obtain ⟨new, newEq, member⟩ := last
  refine ⟨new, ?_, member⟩
  rw [clearScreen_eq, setCursorOffset_written, foldl_range_succ]
  exact newEq

theorem clearScreen_wiped (display : Display) :
    Wiped 25 (cellAt display.video 24 79) (clearScreen display).video := by
  rw [clearScreen_eq, setCursorOffset_video]
  exact (clearRows_wiped (Nat.le_refl _)).fewer (by decide)

theorem clearScreen_cursor (display : Display) : (clearScreen display).readCursor = 0 := by
  rw [readCursor_eq, clearScreen_eq]
  exact setCursorOffset_cursor _ (by decide) (by decide)

/-- The screen is blank afterwards exactly when the cell in its corner was blank
before; the others are, and the cursor is in its place. -/
theorem clearScreen_blank_iff (display : Display) :
    (∀ row col : Nat, row < 25 → col < 80 → cellAt (clearScreen display).video row col = blankCell) ↔
      cellAt display.video 24 79 = blankCell := by
  have wiped := clearScreen_wiped display
  constructor
  · intro blank
    exact wiped.kept.symm.trans (blank 24 79 (by decide) (by decide))
  · intro corner row col rowLt colLt
    rw [wiped.blank row col rowLt colLt (by omega), corner, ite_self]

/-- Whatever the screen shows, `clear_screen` stores below it. -/
theorem clearScreen_not_cleared (display : Display) : ¬ Cleared display (clearScreen display) := by
  intro cleared
  have inside := (clearScreen_stores display).inside cleared.inside
  exact absurd inside (by decide)

/-- A screen of zeros keeps one of them in its corner. -/
theorem lastCell_not_cleared : ¬ ∀ display : Display, Cleared display (clearScreen display) := by
  intro all
  exact absurd ((clearScreen_blank_iff lastCell).mp (all lastCell).cells) (by decide)

end Display

end ScratchOs
