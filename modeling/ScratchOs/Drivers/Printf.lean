import ScratchOs.Drivers.Format
import ScratchOs.Drivers.Print

namespace ScratchOs

open Data Print

/-! What `printf` puts on the console. -/

namespace Printf

/-- The characters of a number go to `print_char` one after another. -/
def Call.run (fuel : Nat) (output : Output) : Call → Option Output
  | .printChar character => some (output.printChar character (-1) (-1))
  | .print message => Print.print message fuel output
  | .printNumber num radix isSigned => do
      let text ← Print.printNumber num radix isSigned
      some (text.foldl (fun output character => output.printChar character (-1) (-1)) output)

/-- `args` are the words of the argument list. -/
def printf (memory : ByteMemory) (args : Nat → Word) (format : Message) (fuel : Nat) (output : Output) :
    Option Output := do
  let scan ← scanFormat memory args format fuel 0 .start
  scan.calls.foldlM (Call.run fuel) output

/-- The text a call shows. A string has to have a first character. -/
inductive Call.Shows : Call → List Byte → Prop where
  | printChar (character : Byte) : Shows (.printChar character) [character]
  | print {message : Message} {text : List Byte} (string : NulTerminated message 0 text) (nonempty : text ≠ []) :
      Shows (.print message) text
  | printNumber {num radix : Word} {isSigned : Bool} {text : List Byte}
      (printed : Print.printNumber num radix isSigned = some text) : Shows (.printNumber num radix isSigned) text

/-- The display with the text printed at its cursor, and the text among what was passed on. -/
structure Shown (text : List Byte) (before after : Output) : Prop where
  display : after.display = Display.printText text before.display
  passed : after.passed = before.passed ++ text

variable {memory : ByteMemory} {args : Nat → Word} {format : Message} {text : List Byte} {texts : List (List Byte)}
  {call : Call} {calls : List Call} {fuel : Nat} {before middle after : Output}

theorem Shown.append {first second : List Byte} (left : Shown first before middle) (right : Shown second middle after) :
    Shown (first ++ second) before after where
  display := by rw [right.display, left.display, Display.printText, Display.printText, Display.printText, List.foldl_append]
  passed := by rw [right.passed, left.passed, List.append_assoc]

theorem shown_printChar (character : Byte) (before : Output) :
    Shown [character] before (before.printChar character (-1) (-1)) := ⟨rfl, rfl⟩

theorem shown_characters (text : List Byte) (before : Output) :
    Shown text before (text.foldl (fun output character => output.printChar character (-1) (-1)) before) := by
  induction text generalizing before with
  | nil => exact ⟨rfl, (List.append_nil _).symm⟩
  | cons character rest ih => exact (shown_printChar character before).append (ih _)

theorem Call.Shows.run (shows : call.Shows text) (enough : text.length < fuel) (before : Output) :
    ∃ after, call.run fuel before = some after ∧ Shown text before after := by
  cases shows with
  | printChar character => exact ⟨_, rfl, shown_printChar character before⟩
  | @print message text string nonempty =>
      obtain ⟨character, rest, rfl⟩ := List.exists_cons_of_ne_nil nonempty
      obtain ⟨after, run, display, emits⟩ := @printAt_spec message rest (-1) (-1) fuel character string
        (Nat.lt_of_succ_lt enough) before
      exact ⟨after, run, display, emits.passed⟩
  | printNumber printed =>
      refine ⟨_, ?_, shown_characters text before⟩
      rw [Call.run, printed]
      rfl

theorem runs_shown (shows : List.Forall₂ Call.Shows calls texts) (enough : texts.flatten.length < fuel)
    (before : Output) :
    ∃ after, calls.foldlM (Call.run fuel) before = some after ∧ Shown texts.flatten before after := by
  induction shows generalizing before with
  | nil => exact ⟨before, rfl, rfl, (List.append_nil _).symm⟩
  | @cons call text calls texts first others ih =>
      rw [List.flatten_cons, List.length_append] at enough
      obtain ⟨middle, runFirst, shownFirst⟩ := first.run (Nat.lt_of_le_of_lt (Nat.le_add_right _ _) enough) before
      obtain ⟨after, runOthers, shownOthers⟩ := ih (Nat.lt_of_le_of_lt (Nat.le_add_left _ _) enough) middle
      refine ⟨after, ?_, shownFirst.append shownOthers⟩
      rw [List.foldlM_cons, runFirst]
      exact runOthers

/-- `printf` shows the texts of its conversions in their places, if the format
does not end inside one and no string is empty. -/
theorem printf_shows (string : NulTerminated format 0 text) (whole : trailingPercents text % 2 = 0)
    (shows : List.Forall₂ Call.Shows (callsOf memory args (pieces text) 0) texts) (before : Output) :
    ∃ fuel after, printf memory args format fuel before = some after ∧ Shown texts.flatten before after := by
  have parted : text = (pieces text).flatMap Piece.text := by
    rcases text_pieces text with parted | dangling
    · exact parted
    · have pairs := trailingPercents_pieces (pieces text)
      rw [dangling, trailingPercents_percent] at whole
      omega
  rw [parted] at string
  obtain ⟨scan, scanned, made, _⟩ := @scanFormat_pieces memory args format (pieces text)
    ((pieces text).length + texts.flatten.length + 1) 0 string (by omega) .start
  obtain ⟨after, run, shown⟩ := @runs_shown _ _ ((pieces text).length + texts.flatten.length + 1) shows (by omega) before
  refine ⟨(pieces text).length + texts.flatten.length + 1, after, ?_, shown⟩
  rw [printf, scanned, Option.bind_eq_bind, Option.bind_some, made]
  exact run

end Printf

end ScratchOs
