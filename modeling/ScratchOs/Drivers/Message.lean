import ScratchOs.Data.CString
import ScratchOs.Drivers.Screen

namespace ScratchOs

open Data Screen

/-! `print_at` and `print`. A message is what stands behind a pointer, outside of
the text memory: nothing that is printed changes it. -/

/-- The bytes from a pointer on. -/
abbrev Message := Nat → Byte

/-- The display, the characters passed to `print_char` so far, and the places at
which messages were read. -/
structure Output where
  display : Display
  passed : List Byte
  reads : List Nat

namespace Output

def printChar (character : Byte) (col row : Int) (output : Output) : Output :=
  { output with
    display := Display.printChar character col row output.display
    passed := output.passed ++ [character] }

def readAt (index : Nat) (output : Output) : Output := { output with reads := output.reads ++ [index] }

/-- `set_cursor_offset(get_cursor_offset(col, row))` for a place on the screen. The
declaration of `get_cursor_offset` has no parameters: it reads the cursor, doubled. -/
def placeCursor (col row : Int) (output : Output) : Output :=
  if 0 ≤ col ∧ 0 ≤ row then
    let (offset, display) := Display.getCursorOffset output.display
    { output with display := Display.setCursorOffset offset display }
  else output

end Output

namespace Print

/-- The loop of `print_at`, from the character `i` on. -/
def printRest (message : Message) : Nat → Nat → Output → Option Output
  | 0, _, _ => none
  | fuel + 1, i, output =>
      let output := output.readAt i
      if message i ≠ 0 then printRest message fuel (i + 1) (output.printChar (message i) (-1) (-1))
      else some output

/-- The first character is printed before the loop tests one. -/
def printAt (message : Message) (col row : Int) (fuel : Nat) (output : Output) : Option Output :=
  let output := ((output.placeCursor col row).readAt 0).printChar (message 0) col row
  printRest message fuel 1 output

def print (message : Message) (fuel : Nat) (output : Output) : Option Output := printAt message (-1) (-1) fuel output

variable {message : Message} {text rest : List Byte} {col row : Int} {fuel i : Nat} {before after output : Output}

/-- What is promised of printing a text: its characters, in order, and no place
behind its terminator. -/
structure Emits (text : List Byte) (before after : Output) : Prop where
  passed : after.passed = before.passed ++ text
  reads : ∃ places, after.reads = before.reads ++ places ∧ ∀ place ∈ places, place ≤ text.length

/-- The call returns and has printed the text. -/
def Prints (call : Nat → Output → Option Output) (text : List Byte) (before : Output) : Prop :=
  ∃ fuel after, call fuel before = some after ∧ Emits text before after

@[simp] theorem passed_printChar {character : Byte} :
    (output.printChar character col row).passed = output.passed ++ [character] := rfl

@[simp] theorem reads_printChar {character : Byte} : (output.printChar character col row).reads = output.reads := rfl

@[simp] theorem passed_readAt : (output.readAt i).passed = output.passed := rfl

@[simp] theorem reads_readAt : (output.readAt i).reads = output.reads ++ [i] := rfl

@[simp] theorem passed_placeCursor : (output.placeCursor col row).passed = output.passed := by
  rw [Output.placeCursor]
  split <;> rfl

@[simp] theorem reads_placeCursor : (output.placeCursor col row).reads = output.reads := by
  rw [Output.placeCursor]
  split <;> rfl

/-- What the loop does with the rest of a text: its characters go to the cursor. -/
theorem printRest_spec (string : NulTerminated message i rest) (enough : rest.length < fuel) (output : Output) :
    ∃ after, printRest message fuel i output = some after ∧
      after.display = Display.printText rest output.display ∧ after.passed = output.passed ++ rest ∧
      ∃ places, after.reads = output.reads ++ places ∧ ∀ place ∈ places, place ≤ i + rest.length := by
  induction rest generalizing fuel i output with
  | nil =>
      obtain ⟨fuel, rfl⟩ := Nat.exists_eq_succ_of_ne_zero (Nat.ne_zero_of_lt enough)
      have stops : ¬ message i ≠ 0 := not_not.mpr string
      refine ⟨output.readAt i, by rw [printRest, if_neg stops], rfl, (List.append_nil _).symm, [i], rfl, ?_⟩
      intro place member
      rw [List.mem_singleton.mp member, List.length_nil, Nat.add_zero]
  | cons character rest ih =>
      obtain ⟨fuel, rfl⟩ := Nat.exists_eq_succ_of_ne_zero (Nat.ne_zero_of_lt enough)
      obtain ⟨here, nonzero, later⟩ := string
      rw [List.length_cons] at enough
      obtain ⟨after, run, display, passed, places, reads, inside⟩ :=
        @ih fuel (i + 1) later (Nat.lt_of_succ_lt_succ enough) ((output.readAt i).printChar character (-1) (-1))
      refine ⟨after, ?_, display, ?_, i :: places, ?_, ?_⟩
      · rw [printRest, here, if_pos nonzero]
        exact run
      · rw [passed, passed_printChar, passed_readAt, List.append_assoc]
        rfl
      · rw [reads, reads_printChar, reads_readAt, List.append_assoc]
        rfl
      · intro place member
        rw [List.length_cons]
        rcases List.mem_cons.mp member with rfl | member
        · exact Nat.le_add_right _ _
        · have bound := inside place member
          omega

/-- The loop takes back nothing that was printed, and reads the place it begins at. -/
theorem printRest_extends (run : printRest message fuel i output = some after) :
    (∃ more, after.passed = output.passed ++ more) ∧ ∃ places, after.reads = output.reads ++ i :: places := by
  induction fuel generalizing i output with
  | zero => cases run
  | succ fuel ih =>
      rw [printRest] at run
      split at run
      · obtain ⟨⟨more, passed⟩, places, reads⟩ := ih run
        rw [passed_printChar, passed_readAt, List.append_assoc] at passed
        rw [reads_printChar, reads_readAt, List.append_assoc] at reads
        exact ⟨⟨_, passed⟩, _, reads⟩
      · cases run
        exact ⟨⟨[], (List.append_nil _).symm⟩, [], rfl⟩

/-- Where a text that is not empty goes: its head to the place asked for, the
others to the cursor. -/
theorem printAt_spec {character : Byte} (string : NulTerminated message 0 (character :: rest))
    (enough : rest.length < fuel) (before : Output) :
    ∃ after, printAt message col row fuel before = some after ∧
      after.display = Display.printText rest (Display.printChar character col row (before.placeCursor col row).display) ∧
      Emits (character :: rest) before after := by
  obtain ⟨here, _, later⟩ := string
  obtain ⟨after, run, display, passed, places, reads, inside⟩ :=
    printRest_spec later enough (((before.placeCursor col row).readAt 0).printChar character col row)
  refine ⟨after, ?_, display, ?_, 0 :: places, ?_, ?_⟩
  · rw [printAt, here]
    exact run
  · rw [passed, passed_printChar, passed_readAt, passed_placeCursor, List.append_assoc]
    rfl
  · rw [reads, reads_printChar, reads_readAt, reads_placeCursor, List.append_assoc]
    rfl
  · intro place member
    rw [List.length_cons]
    rcases List.mem_cons.mp member with rfl | member
    · exact Nat.zero_le _
    · have bound := inside place member
      omega

/-- Nothing is printed as nothing: the terminator itself is passed on. -/
theorem not_prints_nil (message : Message) (col row : Int) (before : Output) :
    ¬ Prints (printAt message col row) [] before := by
  rintro ⟨fuel, after, run, passed, _⟩
  obtain ⟨⟨more, extended⟩, _⟩ := printRest_extends run
  rw [passed, passed_printChar, passed_readAt, passed_placeCursor, List.append_nil] at extended
  have length := congrArg List.length extended
  simp at length

/-- The second place is always read, also when the first one holds the terminator. -/
theorem printAt_reads_second (run : printAt message col row fuel before = some after) : 1 ∈ after.reads := by
  obtain ⟨_, places, reads⟩ := printRest_extends run
  rw [reads]
  exact List.mem_append_right _ List.mem_cons_self

theorem prints_printAt_iff (string : NulTerminated message 0 text) (col row : Int) (before : Output) :
    Prints (printAt message col row) text before ↔ text ≠ [] := by
  cases text with
  | nil => exact iff_of_false (not_prints_nil message col row before) (not_not.mpr rfl)
  | cons character rest =>
      obtain ⟨after, run, _, emits⟩ := @printAt_spec message rest col row (rest.length + 1) character string
        (Nat.lt_succ_self _) before
      exact iff_of_true ⟨_, after, run, emits⟩ (List.cons_ne_nil _ _)

/-- `print` and `print_at` pass exactly the text to `print_char`, and read nothing
behind its terminator, exactly when there is a character to begin with. -/
theorem print_exact_iff (message : Message) (text : List Byte) (string : NulTerminated message 0 text)
    (before : Output) : (Prints (print message) text before ↔ text ≠ []) ∧
      ∀ col row, (Prints (printAt message col row) text before ↔ text ≠ []) :=
  ⟨prints_printAt_iff string (-1) (-1) before, fun col row => prints_printAt_iff string col row before⟩

/-- The cursor in the first cell of a screen of zeros. -/
def zeroScreen : Output := ⟨⟨0, fun _ => 0, fun _ => 0, []⟩, [], []⟩

theorem print_exact_iff_newline : Prints (print (zeroPadded [10])) [10] zeroScreen :=
  (print_exact_iff _ [10] (zeroPadded_nulTerminated (by decide)) zeroScreen).1.mpr (List.cons_ne_nil _ _)

/-- `print("")`. -/
theorem emptyMessage_prints : ¬ ∀ (message : Message) (text : List Byte) (before : Output),
    NulTerminated message 0 text → Prints (print message) text before := fun always =>
  not_prints_nil _ _ _ zeroScreen (always (fun _ => 0) [] zeroScreen rfl)

end Print

end ScratchOs
