import ScratchOs.Data.Terminal
import ScratchOs.Drivers.Screen

namespace ScratchOs

open Data Screen

/-! `print_char` as a terminal of 25 rows and 80 columns. -/

structure Cell where
  character : Byte
  colour : Byte
deriving DecidableEq, Repr

namespace Display

def blankCell : Cell := ⟨charSpace, whiteOnBlack⟩

def cellAt (video : Int → Byte) (row col : Nat) : Cell :=
  ⟨video (getScreenOffset col row), video (getScreenOffset col row + 1)⟩

/-- The display shows what the terminal holds, with the cursor in the same place. -/
structure Shows (display : Display) (terminal : Terminal 25 80 Cell) : Prop where
  cells : ∀ row col, terminal.cells row col = cellAt display.video row col
  cursor : display.readCursor = terminal.row * maxCols + terminal.col

theorem row_lt {display : Display} (onScreen : display.readCursor < maxRows * maxCols) : display.cursor / 80 < 25 := by
  rw [readCursor_eq, maxRows, maxCols] at onScreen
  omega

theorem col_lt (display : Display) : display.cursor % 80 < 80 :=
  Nat.mod_lt _ (by decide)

/-- The terminal a display with its cursor on the screen shows. -/
def terminalOf (display : Display) (onScreen : display.readCursor < maxRows * maxCols) : Terminal 25 80 Cell where
  cells row col := cellAt display.video row col
  row := ⟨display.cursor / 80, row_lt onScreen⟩
  col := ⟨display.cursor % 80, col_lt display⟩

/-- What a terminal is asked to do for a character other than tab and backspace. -/
def inputOf (character : Byte) : Input Cell :=
  if character = charNewline then .newline else .glyph ⟨character, whiteOnBlack⟩

/-- The text as an 80x25 terminal shows it, every scroll erasing the whole last row. -/
def referenceText (text : List Byte) (terminal : Terminal 25 80 Cell) : Terminal 25 80 Cell :=
  terminal.printAll (Terminal.eraseRow blankCell) (text.map inputOf)

variable {display : Display} {terminal other : Terminal 25 80 Cell}

theorem shows_terminalOf (onScreen : display.readCursor < maxRows * maxCols) :
    Shows display (display.terminalOf onScreen) := by
  constructor
  · intro row col
    rfl
  · rw [readCursor_eq, maxCols]
    simp only [terminalOf]
    omega

theorem Shows.position (shown : Shows display terminal) :
    display.cursor = 80 * terminal.row.val + terminal.col.val := by
  have same := shown.cursor
  rw [readCursor_eq, maxCols] at same
  omega

theorem Shows.eq (shown : Shows display terminal) (again : Shows display other) : terminal = other := by
  have first := shown.position
  have second := again.position
  have left := terminal.col.isLt
  have right := other.col.isLt
  apply Terminal.ext
  · funext row col
    rw [shown.cells, again.cells]
  · exact Fin.ext (by omega)
  · exact Fin.ext (by omega)

theorem getScreenOffset_eq (row col : Nat) : getScreenOffset col row = 2 * (80 * row + col : Nat) := by
  rw [getScreenOffset, maxCols]
  omega

theorem cellAt_cellVideo (video : Int → Byte) (position row col : Nat) (character : Byte) :
    cellAt (cellVideo video position character) row col =
      if 80 * row + col = position then ⟨character, whiteOnBlack⟩ else cellAt video row col := by
  simp only [cellAt, cellVideo, getScreenOffset_eq]
  by_cases here : 80 * row + col = position
  · rw [if_pos here, if_pos (by omega), if_neg (by omega), if_pos (by omega)]
  · rw [if_neg here, if_neg (by omega), if_neg (by omega), if_neg (by omega), if_neg (by omega)]

theorem cellAt_scrolledVideo (video : Int → Byte) {row col : Nat} (rowLt : row < 25) (colLt : col < 80) :
    cellAt (scrolledVideo video) row col =
      if row + 1 < 25 then cellAt video (row + 1) col
      else if col + 1 = 80 then cellAt video row col else blankCell := by
  have next : getScreenOffset col ((row + 1 : Nat) : Int) = getScreenOffset col row + 160 := by
    rw [getScreenOffset_eq, getScreenOffset_eq]
    omega
  have place := getScreenOffset_eq row col
  simp only [cellAt, next]
  generalize getScreenOffset (col : Int) (row : Int) = offset at place
  simp only [scrolledVideo]
  by_cases above : row + 1 < 25
  · rw [if_pos above, if_pos (by omega), if_pos (by omega), Int.add_right_comm]
  · by_cases edge : col + 1 = 80
    · rw [if_neg above, if_pos edge, if_neg (by omega), if_neg (by omega), if_neg (by omega), if_neg (by omega)]
    · rw [if_neg above, if_neg edge, if_neg (by omega), if_pos (by omega), if_pos (by omega), if_neg (by omega),
        if_pos (by omega), if_neg (by omega)]
      rfl

/-- The cursor's new place before scrolling, for the characters a terminal has. -/
theorem target_eq {character : Byte} (printable : character ≠ charTab ∧ character ≠ charBackspace)
    (row : Fin 25) (col : Fin 80) :
    target character (80 * row.val + col.val) =
      80 * (if Terminal.LineEnds col (inputOf character) then row.val + 1 else row.val) +
        (Terminal.nextCol col (inputOf character)).val := by
  unfold target inputOf
  have bound := col.isLt
  by_cases newline : character = charNewline
  · simp only [newline, if_true, Terminal.LineEnds, Terminal.nextCol, Fin.coe_ofNat_eq_mod]
    omega
  · have step : (col + 1 : Fin 80).val = (col.val + 1) % 80 := Fin.val_add col 1
    simp only [newline, printable, if_false, Terminal.LineEnds, Terminal.nextCol, step]
    split <;> omega

theorem cellAt_drawnVideo {character : Byte} (printable : character ≠ charTab ∧ character ≠ charBackspace)
    (shown : Shows display terminal) (row : Fin 25) (col : Fin 80) :
    cellAt (drawnVideo character (80 * terminal.row.val + terminal.col.val) display.video) row col =
      (terminal.write (inputOf character)).cells row col := by
  rw [Terminal.write_cells, shown.cells, drawnVideo, inputOf]
  by_cases newline : character = charNewline
  · simp [newline, Terminal.cornerCell]
  · simp only [newline, printable, or_self, if_false, Terminal.cornerCell, Option.getD_some, cellAt_cellVideo]
    have rowEq := @Fin.ext_iff _ row terminal.row
    have colEq := @Fin.ext_iff _ col terminal.col
    have left := terminal.col.isLt
    have right := col.isLt
    by_cases here : row = terminal.row ∧ col = terminal.col
    · rw [if_pos here, if_pos (by omega)]
    · rw [if_neg here, if_neg (by omega)]

/-- One character: the display goes on showing a terminal whose scrolls spare
the bottom right corner. -/
theorem Shows.printChar (shown : Shows display terminal) {character : Byte}
    (printable : character ≠ charTab ∧ character ≠ charBackspace) :
    Shows (Display.printChar character (-1) (-1) display)
      (terminal.print (Terminal.eraseButCorner blankCell) (inputOf character)) := by
  have rowLt := terminal.row.isLt
  have colLt := terminal.col.isLt
  have nextLt := (Terminal.nextCol terminal.col (inputOf character)).isLt
  have position := shown.position
  obtain ⟨video, cursor, _⟩ := printChar_spec character display (by omega)
  rw [position, target_eq printable] at video cursor
  by_cases scrolled : Terminal.Scrolls terminal.row terminal.col (inputOf character)
  · have ends := scrolled.1
    have bottom := scrolled.2
    rw [if_pos ends, if_neg (by omega)] at video cursor
    constructor
    · intro row col
      simp only [Terminal.print, if_pos scrolled, Terminal.scroll]
      rw [video, cellAt_scrolledVideo _ row.isLt col.isLt]
      by_cases below : row.val + 1 < 25
      · rw [dif_pos below, if_pos below]
        exact (cellAt_drawnVideo printable shown ⟨row.val + 1, below⟩ col).symm
      · rw [dif_neg below, if_neg below, Terminal.eraseButCorner]
        split
        · exact (cellAt_drawnVideo printable shown row col).symm
        · rfl
    · rw [readCursor_eq, cursor, maxCols]
      simp only [Terminal.print, Terminal.nextRow, if_pos ends]
      rw [dif_neg (by omega)]
      omega
  · constructor
    · intro row col
      simp only [Terminal.print, if_neg scrolled]
      rw [video, if_pos, cellAt_drawnVideo printable shown]
      split
      · rename_i ends
        have inside : terminal.row.val + 1 ≠ 25 := fun bottom => scrolled ⟨ends, bottom⟩
        omega
      · omega
    · rw [readCursor_eq, cursor, maxCols]
      simp only [Terminal.print, Terminal.nextRow]
      by_cases ends : Terminal.LineEnds terminal.col (inputOf character)
      · have inside : terminal.row.val + 1 ≠ 25 := fun bottom => scrolled ⟨ends, bottom⟩
        rw [if_pos ends, if_pos ends, if_pos (by omega), dif_pos (by omega)]
        simp only
        omega
      · rw [if_neg ends, if_neg ends, if_pos (by omega)]
        omega

theorem Shows.printText (shown : Shows display terminal) {text : List Byte}
    (printable : ∀ character ∈ text, character ≠ charTab ∧ character ≠ charBackspace) :
    Shows (Display.printText text display)
      (terminal.printAll (Terminal.eraseButCorner blankCell) (text.map inputOf)) := by
  induction text generalizing display terminal with
  | nil => exact shown
  | cons character rest ih =>
      exact ih (shown.printChar (printable character List.mem_cons_self))
        fun other member => printable other (List.mem_cons_of_mem _ member)

theorem shows_reference_iff (onScreen : display.readCursor < maxRows * maxCols) {text : List Byte}
    (printable : ∀ character ∈ text, character ≠ charTab ∧ character ≠ charBackspace) :
    Shows (printText text display) (referenceText text (display.terminalOf onScreen)) ↔
      (display.terminalOf onScreen).printAll (Terminal.eraseButCorner blankCell) (text.map inputOf) =
        referenceText text (display.terminalOf onScreen) := by
  have shown := (shows_terminalOf onScreen).printText printable
  constructor
  · exact shown.eq
  · intro same
    rwa [same] at shown

def cornerOf (display : Display) : Cell := cellAt display.video 24 79

/-- The scrolls that printing a text causes, from the cursor's place alone. -/
def scrollsOf (text : List Byte) (terminal : Terminal 25 80 Cell) : List (Option Cell) :=
  Terminal.scrolls terminal.row terminal.col (text.map inputOf)

theorem terminalOf_corner (onScreen : display.readCursor < maxRows * maxCols) (row : Fin 25) (col : Fin 80)
    (last : row.val + 1 = 25) (edge : col.val + 1 = 80) :
    (display.terminalOf onScreen).cells row col = display.cornerOf := by
  have lastRow : row = 24 := Fin.ext (by simp only [Fin.coe_ofNat_eq_mod]; omega)
  have lastCol : col = 79 := Fin.ext (by simp only [Fin.coe_ofNat_eq_mod]; omega)
  rw [lastRow, lastCol]
  rfl

/-- `scroll_screen_up` erases one cell too few, so the display matches the
reference terminal exactly when that cell was blank wherever it still shows. -/
theorem console_refines_terminal_iff (display : Display) (onScreen : display.readCursor < maxRows * maxCols)
    (text : List Byte) (printable : ∀ character ∈ text, character ≠ charTab ∧ character ≠ charBackspace) :
    Shows (printText text display) (referenceText text (display.terminalOf onScreen)) ↔
      Terminal.CornerBlank 25 blankCell display.cornerOf (scrollsOf text (display.terminalOf onScreen)) := by
  rw [shows_reference_iff onScreen printable]
  exact Terminal.printAll_eq_iff _ _ (terminalOf_corner onScreen)

theorem lastCell_onScreen : lastCell.readCursor < maxRows * maxCols := by decide

/-- A character in the last cell makes the screen scroll; a copy of it stays behind. -/
theorem lastCell_keeps_character :
    ¬ Shows (printText [65] lastCell) (referenceText [65] (lastCell.terminalOf lastCell_onScreen)) := by
  rw [shows_reference_iff lastCell_onScreen (by decide)]
  intro same
  have clean := (Terminal.printAll_eq_iff _ _ (terminalOf_corner lastCell_onScreen)).mp same
  have kept := clean.last (by decide)
  revert kept
  decide

/-- A cleared screen with the cursor in the first cell. -/
def firstCell : Display := ⟨0, fun _ => 0, fun _ => 0, []⟩

theorem firstCell_onScreen : firstCell.readCursor < maxRows * maxCols := by decide

theorem console_refines_terminal_iff_firstCell :
    Shows (printText [65] firstCell) (referenceText [65] (firstCell.terminalOf firstCell_onScreen)) := by
  have quiet : scrollsOf [65] (firstCell.terminalOf firstCell_onScreen) = [] := by decide
  have refines := console_refines_terminal_iff firstCell firstCell_onScreen [65] (by decide)
  rw [quiet] at refines
  exact refines.mpr ⟨fun scrolled => absurd rfl scrolled, by simp⟩

end Display

end ScratchOs
