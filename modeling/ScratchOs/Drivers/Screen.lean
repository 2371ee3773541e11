import ScratchOs.Data.ByteMemory

namespace ScratchOs

open Data

/-! `drivers/screen.c` over the text mode of the display adapter. -/

namespace Screen

def maxRows : Int := 25
def maxCols : Int := 80
def whiteOnBlack : Byte := 0x0f

def charNewline : Byte := 10
def charTab : Byte := 9
def charBackspace : Byte := 8
def charSpace : Byte := 32

/-- The ports of the CRT controller. -/
inductive Port where
  | regScreenCtrl
  | regScreenData
deriving DecidableEq, Repr

end Screen

open Screen

/-- The CRT controller's registers behind its index port, and the text memory
at `VIDEO_ADDRESS`. `written` keeps the index of every byte stored there. -/
structure Display where
  selected : Byte
  registers : Byte → Byte
  video : Int → Byte
  written : List Int

namespace Display

def portByteOut (port : Port) (data : Byte) (display : Display) : Display :=
  match port with
  | .regScreenCtrl => { display with selected := data }
  | .regScreenData => { display with registers := Function.update display.registers display.selected data }

def portByteIn (port : Port) (display : Display) : Byte :=
  match port with
  | .regScreenCtrl => display.selected
  | .regScreenData => display.registers display.selected

/-- `video_memory[index] = value`. -/
def store (index : Int) (value : Byte) (display : Display) : Display :=
  { display with video := Function.update display.video index value, written := index :: display.written }

def getScreenOffset (col row : Int) : Int := 2 * (row * maxCols + col)

def getCursorOffset (display : Display) : Int × Display :=
  let display := portByteOut .regScreenCtrl 0x0E display
  let hibyte := portByteIn .regScreenData display
  let display := portByteOut .regScreenCtrl 0x0F display
  let lowbyte := portByteIn .regScreenData display
  let offset : Nat := hibyte.toNat <<< 8 ||| lowbyte.toNat
  (offset * 2, display)

/-- The masks with `0xFF` are the conversions to `unsigned char`. -/
def setCursorOffset (offset : Int) (display : Display) : Display :=
  let hibyte := BitVec.ofInt 8 (offset >>> (8 : Nat))
  let lowbyte := BitVec.ofInt 8 offset
  let display := portByteOut .regScreenCtrl 0x0E display
  let display := portByteOut .regScreenData hibyte display
  let display := portByteOut .regScreenCtrl 0x0F display
  portByteOut .regScreenData lowbyte display

/-- One cell of the copying loop: both of its bytes, from the row below. -/
def copyCell (row : Nat) (display : Display) (col : Nat) : Display :=
  let currentOffset := getScreenOffset col row
  let nextOffset := getScreenOffset col (row + 1)
  let display := display.store currentOffset (display.video nextOffset)
  display.store (currentOffset + 1) (display.video (nextOffset + 1))

def copyRow (display : Display) (row : Nat) : Display :=
  (List.range maxCols.toNat).foldl (copyCell row) display

def eraseCell (display : Display) (col : Nat) : Display :=
  let lastLineStart := getScreenOffset 0 (maxRows - 1)
  let display := display.store (lastLineStart + col * 2) charSpace
  display.store (lastLineStart + col * 2 + 1) whiteOnBlack

/-- The erasing loop runs to `MAX_COLS - 1`. -/
def scrollScreenUp (display : Display) : Display :=
  let display := (List.range (maxRows - 1).toNat).foldl copyRow display
  let display := (List.range (maxCols - 1).toNat).foldl eraseCell display
  let (offset, display) := getCursorOffset display
  setCursorOffset (offset.tdiv 2 - maxCols) display

def handleScrollScreen (display : Display) : Display :=
  let lastLineOffset := getScreenOffset 0 maxRows
  let (offset, display) := getCursorOffset display
  if lastLineOffset ≤ offset then scrollScreenUp display else display

/-- The part of `print_char` between reading the cursor and setting it: the
new offset and the stores. -/
def drawChar (character : Byte) (offset : Int) (display : Display) : Int × Display :=
  if character = charNewline then
    (getScreenOffset 0 (offset.tdiv (2 * maxCols) + 1), display)
  else if character = charTab then
    (offset + 16, display)
  else if character = charBackspace then
    if 0 < offset then
      (offset - 2, (display.store (offset - 2) charSpace).store (offset - 2 + 1) whiteOnBlack)
    else (offset, display)
  else (offset + 2, (display.store offset character).store (offset + 1) whiteOnBlack)

def printChar (character : Byte) (col row : Int) (display : Display) : Display :=
  let (offset, display) :=
    if 0 ≤ col ∧ 0 ≤ row then (getScreenOffset col row, display) else getCursorOffset display
  let (offset, display) := drawChar character offset display
  handleScrollScreen (setCursorOffset (offset.tdiv 2) display)

/-- A text printed at the cursor, character by character. -/
def printText (text : List Byte) (display : Display) : Display :=
  text.foldl (fun display character => printChar character (-1) (-1) display) display

/-! The hardware cursor. -/

def cursor (display : Display) : Nat := (display.registers 0x0E).toNat * 256 + (display.registers 0x0F).toNat

theorem getCursorOffset_eq (display : Display) :
    getCursorOffset display = (2 * (display.cursor : Int), { display with selected := 0x0F }) := by
  have low := (display.registers 0x0F).isLt
  have join : (display.registers 0x0E).toNat <<< 8 ||| (display.registers 0x0F).toNat = display.cursor := by
    rw [← Nat.shiftLeft_add_eq_or_of_lt low, Nat.shiftLeft_eq]
    rfl
  simp only [getCursorOffset, portByteOut, portByteIn, join, Prod.mk.injEq, and_true]
  omega

theorem setCursorOffset_cursor {offset : Int} (display : Display) (lower : 0 ≤ offset) (upper : offset < 65536) :
    ((setCursorOffset offset display).cursor : Int) = offset := by
  have high : (BitVec.ofInt 8 (offset >>> (8 : Nat))).toNat = (offset / 256).toNat := by
    rw [BitVec.toNat_ofInt, Int.shiftRight_eq_div_pow]
    omega
  have low : (BitVec.ofInt 8 offset).toNat = (offset % 256).toNat := by
    rw [BitVec.toNat_ofInt]
    rfl
  simp only [cursor, setCursorOffset, portByteOut, Function.update_self,
    Function.update_of_ne (show (0x0E : Byte) ≠ 0x0F by decide), high, low]
  omega

/-! What the stores do, loop by loop. -/

theorem foldl_range_succ {α : Type*} (step : α → Nat → α) (first : α) (count : Nat) :
    (List.range (count + 1)).foldl step first = step ((List.range count).foldl step first) count := by
  rw [List.range_succ, List.foldl_append, List.foldl_cons, List.foldl_nil]

/-- Every byte stored since `before` lies in the text memory. -/
def WritesInside (before after : Display) : Prop :=
  ∃ new, after.written = new ++ before.written ∧ ∀ index ∈ new, 0 ≤ index ∧ index < 2 * maxRows * maxCols

theorem WritesInside.refl (display : Display) : WritesInside display display := ⟨[], rfl, by simp⟩

theorem WritesInside.trans {first second third : Display} (left : WritesInside first second)
    (right : WritesInside second third) : WritesInside first third := by
  obtain ⟨early, earlyEq, earlyInside⟩ := left
  obtain ⟨late, lateEq, lateInside⟩ := right
  refine ⟨late ++ early, by rw [lateEq, earlyEq, List.append_assoc], fun index member => ?_⟩
  rcases List.mem_append.mp member with member | member
  · exact lateInside index member
  · exact earlyInside index member

/-- Stores change the text memory only, and only inside. -/
structure Drawn (before after : Display) (video : Int → Byte) : Prop where
  registers : after.registers = before.registers
  video : after.video = video
  inside : WritesInside before after

variable {display middle after : Display}

theorem Drawn.cursor {video : Int → Byte} (drawn : Drawn display after video) : after.cursor = display.cursor := by
  unfold Display.cursor
  rw [drawn.registers]

theorem Drawn.refl (display : Display) : Drawn display display display.video := ⟨rfl, rfl, .refl display⟩

theorem Drawn.trans {video video' : Int → Byte} (first : Drawn display middle video)
    (second : Drawn middle after video') : Drawn display after video' :=
  ⟨second.registers.trans first.registers, second.video, first.inside.trans second.inside⟩

theorem Drawn.of_eq {video video' : Int → Byte} (drawn : Drawn display after video) (same : video = video') :
    Drawn display after video' := same ▸ drawn

theorem drawn_cell (display : Display) (character colour : Byte) {offset : Int} (lower : 0 ≤ offset)
    (upper : offset + 1 < 2 * maxRows * maxCols) :
    Drawn display ((display.store offset character).store (offset + 1) colour)
      (fun index => if index = offset then character else if index = offset + 1 then colour
        else display.video index) := by
  refine ⟨rfl, ?_, [offset + 1, offset], rfl, ?_⟩
  · funext index
    simp only [store, Function.update_apply]
    by_cases first : index = offset
    · rw [if_pos first, if_neg (by omega), if_pos first]
    · rw [if_neg first, if_neg first]
  · intro index member
    simp only [List.mem_cons, List.not_mem_nil, or_false] at member
    omega

theorem copyCell_drawn {row col : Nat} (display : Display) (rowLt : row < 24) (colLt : col < 80) :
    Drawn display (copyCell row display col) (fun index =>
      if 160 * row + 2 * col ≤ index ∧ index < 160 * row + 2 * col + 2 then display.video (index + 160)
      else display.video index) := by
  have place : getScreenOffset col row = 160 * row + 2 * col := by
    simp only [getScreenOffset, maxCols]
    omega
  have next : getScreenOffset col (row + 1) = 160 * row + 2 * col + 160 := by
    simp only [getScreenOffset, maxCols]
    omega
  have bound : (160 * row + 2 * col : Int) + 1 < 2 * maxRows * maxCols := by
    simp only [maxRows, maxCols]
    omega
  simp only [copyCell, place, next]
  refine (drawn_cell display _ _ (by omega) bound).of_eq ?_
  funext index
  by_cases first : index = 160 * row + 2 * col
  · rw [if_pos first, if_pos (by omega), first]
  · by_cases second : index = 160 * row + 2 * col + 1
    · have source : (160 * row + 2 * col : Int) + 160 + 1 ≠ 160 * row + 2 * col := by omega
      rw [if_neg first, if_pos second, if_pos (by omega), second]
      simp only [store, Function.update_of_ne source]
      rw [Int.add_right_comm]
    · rw [if_neg first, if_neg second, if_neg (by omega)]

/-- The inner loop after `count` columns: it reads the row below, which it does not write. -/
theorem copyRow_drawn {row count : Nat} (display : Display) (rowLt : row < 24) (countLe : count ≤ 80) :
    Drawn display ((List.range count).foldl (copyCell row) display) (fun index =>
      if 160 * row ≤ index ∧ index < 160 * row + 2 * count then display.video (index + 160)
      else display.video index) := by
  induction count with
  | zero =>
      refine (Drawn.refl display).of_eq ?_
      funext index
      rw [if_neg (by omega)]
  | succ count ih =>
      have before := ih (by omega)
      rw [foldl_range_succ]
      refine (before.trans (copyCell_drawn _ rowLt (by omega))).of_eq ?_
      funext index
      simp only [before.video]
      by_cases last : 160 * row + 2 * count ≤ index ∧ index < 160 * row + 2 * count + 2
      · rw [if_pos last, if_neg (by omega), if_pos (by omega)]
      · by_cases inside : 160 * row ≤ index ∧ index < 160 * row + 2 * count
        · rw [if_neg last, if_pos inside, if_pos (by omega)]
        · rw [if_neg last, if_neg inside, if_neg (by omega)]

theorem copyRows_drawn {count : Nat} (display : Display) (countLe : count ≤ 24) :
    Drawn display ((List.range count).foldl copyRow display) (fun index =>
      if 0 ≤ index ∧ index < 160 * count then display.video (index + 160) else display.video index) := by
  induction count with
  | zero =>
      refine (Drawn.refl display).of_eq ?_
      funext index
      rw [if_neg (by omega)]
  | succ count ih =>
      have before := ih (by omega)
      rw [foldl_range_succ]
      refine (before.trans (@copyRow_drawn count 80 _ (by omega) (by omega))).of_eq ?_
      funext index
      simp only [before.video]
      by_cases last : 160 * count ≤ index ∧ index < 160 * count + 2 * 80
      · rw [if_pos (by omega), if_neg (by omega), if_pos (by omega)]
      · by_cases inside : 0 ≤ index ∧ index < 160 * count
        · rw [if_neg (by omega), if_pos inside, if_pos (by omega)]
        · rw [if_neg (by omega), if_neg inside, if_neg (by omega)]

theorem eraseCells_drawn {count : Nat} (display : Display) (countLe : count ≤ 80) :
    Drawn display ((List.range count).foldl eraseCell display) (fun index =>
      if 3840 ≤ index ∧ index < 3840 + 2 * count then if index % 2 = 0 then charSpace else whiteOnBlack
      else display.video index) := by
  induction count with
  | zero =>
      refine (Drawn.refl display).of_eq ?_
      funext index
      rw [if_neg (by omega)]
  | succ count ih =>
      have before := ih (by omega)
      have start : getScreenOffset 0 (maxRows - 1) = 3840 := rfl
      rw [foldl_range_succ]
      simp only [eraseCell, start]
      have bound : (3840 + count * 2 : Int) + 1 < 2 * maxRows * maxCols := by
        simp only [maxRows, maxCols]
        omega
      refine (before.trans (drawn_cell _ _ _ (by omega) bound)).of_eq ?_
      funext index
      simp only [before.video]
      by_cases first : index = 3840 + count * 2
      · rw [if_pos first, if_pos (by omega), if_pos (by omega)]
      · by_cases second : index = 3840 + count * 2 + 1
        · rw [if_neg first, if_pos second, if_pos (by omega), if_neg (by omega)]
        · by_cases inside : 3840 ≤ index ∧ index < 3840 + 2 * (count : Int)
          · have wider : 3840 ≤ index ∧ index < 3840 + 2 * ((count + 1 : Nat) : Int) := by omega
            rw [if_neg first, if_neg second, if_pos inside, if_pos wider]
          · rw [if_neg first, if_neg second, if_neg inside, if_neg (by omega)]

/-- The text memory after a scroll. The last cell of the last row is spared. -/
def scrolledVideo (video : Int → Byte) (index : Int) : Byte :=
  if 0 ≤ index ∧ index < 3840 then video (index + 160)
  else if 3840 ≤ index ∧ index < 3998 then if index % 2 = 0 then charSpace else whiteOnBlack
  else video index

theorem scrollScreenUp_spec (display : Display) (low : 80 ≤ display.cursor) :
    (scrollScreenUp display).video = scrolledVideo display.video ∧
      (scrollScreenUp display).cursor = display.cursor - 80 ∧ WritesInside display (scrollScreenUp display) := by
  have copied := @copyRows_drawn 24 display (by omega)
  have erased := copied.trans (@eraseCells_drawn 79 _ (by omega))
  simp only [copied.video] at erased
  have same := erased.cursor
  generalize drawing : (List.range 79).foldl eraseCell ((List.range 24).foldl copyRow display) = drawn at erased same
  have run : scrollScreenUp display =
      setCursorOffset (display.cursor - 80) { drawn with selected := 0x0F } := by
    have rows : (maxRows - 1).toNat = 24 := rfl
    have cols : (maxCols - 1).toNat = 79 := rfl
    have half : (2 * (display.cursor : Int)).tdiv 2 - maxCols = display.cursor - 80 := by
      rw [Int.mul_tdiv_cancel_left _ (by decide), maxCols]
    simp only [scrollScreenUp, rows, cols, drawing, getCursorOffset_eq, same, half]
  have high := (display.registers 0x0E).isLt
  have bound : display.cursor < 65536 := by
    have low := (display.registers 0x0F).isLt
    unfold cursor
    omega
  rw [run]
  refine ⟨?_, ?_, erased.inside⟩
  · refine erased.video.trans ?_
    funext index
    rw [scrolledVideo]
    by_cases upper : 0 ≤ index ∧ index < 3840
    · rw [if_pos upper, if_neg (by omega), if_pos (by omega)]
    · by_cases last : 3840 ≤ index ∧ index < 3998
      · rw [if_neg upper, if_pos last, if_pos (by omega)]
      · rw [if_neg upper, if_neg last, if_neg (by omega), if_neg (by omega)]
  · have position := setCursorOffset_cursor { drawn with selected := 0x0F }
      (show 0 ≤ (display.cursor : Int) - 80 by omega) (by omega)
    omega

/-! One character. -/

/-- Where the cursor goes before the screen scrolls. -/
def target (character : Byte) (position : Nat) : Nat :=
  if character = charNewline then 80 * (position / 80 + 1)
  else if character = charTab then position + 8
  else if character = charBackspace then position - 1
  else position + 1

def cellVideo (video : Int → Byte) (position : Nat) (character : Byte) (index : Int) : Byte :=
  if index = 2 * position then character else if index = 2 * position + 1 then whiteOnBlack else video index

def drawnVideo (character : Byte) (position : Nat) (video : Int → Byte) : Int → Byte :=
  if character = charNewline ∨ character = charTab then video
  else if character = charBackspace then
    if 0 < position then cellVideo video (position - 1) charSpace else video
  else cellVideo video position character

theorem drawChar_spec (character : Byte) (display : Display) {position : Nat} (onScreen : position < 2000) :
    ∃ drawn, drawChar character (2 * position) display = (2 * (target character position : Int), drawn) ∧
      Drawn display drawn (drawnVideo character position display.video) := by
  unfold drawChar target drawnVideo
  by_cases newline : character = charNewline
  · simp only [newline, if_true, true_or]
    refine ⟨display, ?_, .refl display⟩
    have row : (2 * (position : Int)).tdiv (2 * maxCols) = position / 80 := by
      rw [maxCols, Int.mul_tdiv_mul_of_pos _ _ (by decide), Int.tdiv_eq_ediv_of_nonneg (by omega)]
    rw [row]
    simp only [getScreenOffset, maxCols, Prod.mk.injEq, and_true]
    omega
  simp only [newline, if_false, false_or]
  by_cases tab : character = charTab
  · simp only [tab, if_true]
    refine ⟨display, ?_, .refl display⟩
    simp only [Prod.mk.injEq, and_true]
    omega
  simp only [tab, if_false]
  by_cases back : character = charBackspace
  · simp only [back, if_true]
    by_cases start : 0 < position
    · have bound : (2 * (position : Int) - 2) + 1 < 2 * maxRows * maxCols := by
        simp only [maxRows, maxCols]
        omega
      rw [if_pos (by omega), if_pos start]
      refine ⟨_, ?_, (drawn_cell display charSpace whiteOnBlack (by omega) bound).of_eq ?_⟩
      · simp only [Prod.mk.injEq, and_true]
        omega
      · have place : 2 * (position : Int) - 2 = 2 * ((position - 1 : Nat) : Int) := by omega
        rw [place]
        rfl
    · rw [if_neg (by omega), if_neg start]
      refine ⟨display, ?_, .refl display⟩
      simp only [Prod.mk.injEq, and_true]
      omega
  · simp only [back, if_false]
    have bound : 2 * (position : Int) + 1 < 2 * maxRows * maxCols := by
      simp only [maxRows, maxCols]
      omega
    refine ⟨_, ?_, drawn_cell display character whiteOnBlack (by omega) bound⟩
    simp only [Prod.mk.injEq, and_true]
    omega

theorem handleScrollScreen_spec (display : Display) :
    (handleScrollScreen display).video =
        (if display.cursor < 2000 then display.video else scrolledVideo display.video) ∧
      (handleScrollScreen display).cursor = (if display.cursor < 2000 then display.cursor else display.cursor - 80) ∧
      WritesInside display (handleScrollScreen display) := by
  have limit : getScreenOffset 0 maxRows = 4000 := rfl
  simp only [handleScrollScreen, getCursorOffset_eq, limit]
  by_cases inside : display.cursor < 2000
  · rw [if_neg (by omega), if_pos inside, if_pos inside]
    exact ⟨rfl, rfl, .refl _⟩
  · rw [if_pos (by omega), if_neg inside, if_neg inside]
    exact scrollScreenUp_spec { display with selected := 0x0F } (by change 80 ≤ display.cursor; omega)

theorem target_lt (character : Byte) {position : Nat} (onScreen : position < 2000) :
    target character position < 2080 := by
  unfold target
  split
  · omega
  · split
    · omega
    · split <;> omega

/-- A character printed at a cursor on the screen: it is drawn, the cursor
moves, and one scroll brings back a cursor that left. -/
theorem printChar_spec (character : Byte) (display : Display) (onScreen : display.cursor < 2000) :
    let drawn := drawnVideo character display.cursor display.video
    let position := target character display.cursor
    (printChar character (-1) (-1) display).video =
        (if position < 2000 then drawn else scrolledVideo drawn) ∧
      (printChar character (-1) (-1) display).cursor = (if position < 2000 then position else position - 80) ∧
      WritesInside display (printChar character (-1) (-1) display) := by
  intro drawnBytes position
  have bound := target_lt character onScreen
  obtain ⟨drawn, run, effect⟩ := drawChar_spec character { display with selected := 0x0F } onScreen
  have half : (2 * (position : Int)).tdiv 2 = position := Int.mul_tdiv_cancel_left _ (by decide)
  have unset : ¬ ((0 : Int) ≤ -1 ∧ (0 : Int) ≤ -1) := by omega
  have steps : printChar character (-1) (-1) display = handleScrollScreen (setCursorOffset position drawn) := by
    simp only [printChar, if_neg unset, getCursorOffset_eq, run]
    rw [half]
  have moved : (setCursorOffset position drawn).cursor = position := by
    have placed := setCursorOffset_cursor drawn (show 0 ≤ (position : Int) by omega) (by omega)
    omega
  obtain ⟨video, cursor, inside⟩ := handleScrollScreen_spec (setCursorOffset position drawn)
  rw [moved] at video cursor
  rw [steps]
  refine ⟨?_, cursor, WritesInside.trans effect.inside inside⟩
  rw [video]
  change (if position < 2000 then drawn.video else scrolledVideo drawn.video) = _
  rw [effect.video]

theorem printChar_onScreen (character : Byte) (display : Display) (onScreen : display.cursor < 2000) :
    (printChar character (-1) (-1) display).cursor < 2000 := by
  have bound := target_lt character onScreen
  rw [(printChar_spec character display onScreen).2.1]
  split <;> omega

theorem printText_onScreen (text : List Byte) (display : Display) (onScreen : display.cursor < 2000) :
    (printText text display).cursor < 2000 ∧ WritesInside display (printText text display) := by
  induction text generalizing display with
  | nil => exact ⟨onScreen, .refl display⟩
  | cons character rest ih =>
      have inside := (printChar_spec character display onScreen).2.2
      obtain ⟨cursor, later⟩ := ih _ (printChar_onScreen character display onScreen)
      exact ⟨cursor, inside.trans later⟩

/-- The position the code reads back, in cells. -/
def readCursor (display : Display) : Int := (getCursorOffset display).1.tdiv 2

theorem readCursor_eq (display : Display) : display.readCursor = display.cursor := by
  rw [readCursor, getCursorOffset_eq]
  exact Int.mul_tdiv_cancel_left _ (by decide)

/-- Whatever is printed, after every character the cursor is on the screen and
every byte stored was inside the text memory. -/
theorem console_stays_on_screen (display : Display) (onScreen : display.readCursor < maxRows * maxCols)
    (text : List Byte) (count : Nat) :
    let after := printText (text.take count) display
    0 ≤ after.readCursor ∧ after.readCursor < maxRows * maxCols ∧ WritesInside display after := by
  intro after
  rw [readCursor_eq, maxRows, maxCols] at onScreen
  obtain ⟨cursor, inside⟩ := printText_onScreen (text.take count) display (by omega)
  rw [readCursor_eq, maxRows, maxCols]
  refine ⟨by omega, ?_, inside⟩
  change ((printText (text.take count) display).cursor : Int) < 25 * 80
  omega

/-- A cleared screen with the cursor in the last cell. -/
def lastCell : Display where
  selected := 0
  registers register := if register = 0x0E then 7 else if register = 0x0F then 207 else 0
  video _ := 0
  written := []

theorem console_stays_on_screen_lastCell :
    lastCell.readCursor = 1999 ∧
      (printText [charTab, charNewline] lastCell).readCursor < maxRows * maxCols :=
  ⟨by decide, (console_stays_on_screen lastCell (by decide) [charTab, charNewline] 2).2.1⟩

end Display

end ScratchOs
