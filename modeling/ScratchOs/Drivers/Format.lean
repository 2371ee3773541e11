import Mathlib.Data.List.Induction
import ScratchOs.Drivers.Message

namespace ScratchOs

open Data

/-! The format scanner of `printf`. It does not depend on what the functions it
calls do: it gives the list of these calls. -/

namespace Printf

def charPercent : Byte := 37
def charc : Byte := 99
def chars : Byte := 115
def chard : Byte := 100
def chari : Byte := 105
def charu : Byte := 117
def charp : Byte := 112
def charx : Byte := 120
def charX : Byte := 88
def charo : Byte := 111

/-- The calls of `printf`; `print_char` is called without a place. -/
inductive Call where
  | printChar (character : Byte)
  | print (message : Message)
  | printNumber (num radix : Word) (isSigned : Bool)

/-- A `char *` out of the argument list. -/
def messageAt (memory : ByteMemory) (pointer : Word) : Message := fun index => memory (pointer + BitVec.ofNat 32 index)

/-- `"0x"`. -/
def hexPrefix : Message := zeroPadded [48, 120]

/-- The calls so far, the number of `va_arg`s, and the places of the format that were read. -/
structure Scan where
  calls : List Call
  used : Nat
  reads : List Nat

namespace Scan

def start : Scan := ⟨[], 0, []⟩

def readAt (pos : Nat) (scan : Scan) : Scan := { scan with reads := scan.reads ++ [pos] }

def call (calls : List Call) (scan : Scan) : Scan := { scan with calls := scan.calls ++ calls }

def vaArg (scan : Scan) : Scan := { scan with used := scan.used + 1 }

end Scan

/-- The `switch`. -/
def convert (memory : ByteMemory) (args : Nat → Word) (letter : Byte) (scan : Scan) : Scan :=
  let argument := args scan.used
  if letter = charc then scan.vaArg.call [.printChar (argument.setWidth 8)]
  else if letter = chars then scan.vaArg.call [.print (messageAt memory argument)]
  else if letter = chard ∨ letter = chari then scan.vaArg.call [.printNumber argument 10 true]
  else if letter = charu then scan.vaArg.call [.printNumber argument 10 false]
  else if letter = charp ∨ letter = charx ∨ letter = charX then
    scan.vaArg.call [.print hexPrefix, .printNumber argument 16 false]
  else if letter = charo then scan.vaArg.call [.printNumber argument 8 false]
  else if letter = charPercent then scan.call [.printChar charPercent]
  else scan

/-- The loop over the format. Behind a `%` the pointer is advanced twice. -/
def scanFormat (memory : ByteMemory) (args : Nat → Word) (format : Message) : Nat → Nat → Scan → Option Scan
  | 0, _, _ => none
  | fuel + 1, pos, scan =>
      let scan := scan.readAt pos
      if format pos = 0 then some scan
      else if format pos = charPercent then
        scanFormat memory args format fuel (pos + 2) (convert memory args (format (pos + 1)) (scan.readAt (pos + 1)))
      else scanFormat memory args format fuel (pos + 1) (scan.call [.printChar (format pos)])

/-- A character outside of the conversions, or a `%` with its letter. -/
inductive Piece where
  | plain (character : Byte) (ordinary : character ≠ charPercent)
  | conversion (letter : Byte)

namespace Piece

def text : Piece → List Byte
  | .plain character _ => [character]
  | .conversion letter => [charPercent, letter]

def TakesArgument : Piece → Prop
  | .plain _ _ => False
  | .conversion letter => letter ∈ [charc, chars, chard, chari, charu, charp, charx, charX, charo]

instance : (piece : Piece) → Decidable piece.TakesArgument
  | .plain _ _ => .isFalse id
  | .conversion letter => inferInstanceAs (Decidable (letter ∈ [_, _, _, _, _, _, _, _, _]))

end Piece

/-- The format from the front on; a `%` with nothing behind it is no conversion. -/
def pieces : List Byte → List Piece
  | [] => []
  | [character] => if ordinary : character ≠ charPercent then [.plain character ordinary] else []
  | character :: letter :: rest =>
      if ordinary : character ≠ charPercent then .plain character ordinary :: pieces (letter :: rest)
      else .conversion letter :: pieces rest

/-- What the switch calls for a letter with this argument next. -/
def conversionCalls (memory : ByteMemory) (argument : Word) (letter : Byte) : List Call :=
  (convert memory (fun _ => argument) letter .start).calls

/-- What a piece calls. A plain character is passed on as it is. -/
def Piece.calls (memory : ByteMemory) (argument : Word) : Piece → List Call
  | .plain character _ => [.printChar character]
  | .conversion letter => conversionCalls memory argument letter

/-- The calls of the pieces one after another. Each piece that takes an argument
gets the next one. -/
def callsOf (memory : ByteMemory) (args : Nat → Word) : List Piece → Nat → List Call
  | [], _ => []
  | piece :: rest, used =>
      piece.calls memory (args used) ++ callsOf memory args rest (used + if piece.TakesArgument then 1 else 0)

/-- What the scan has recorded one piece further. -/
def Piece.scanned (memory : ByteMemory) (args : Nat → Word) (pos : Nat) (scan : Scan) : Piece → Scan
  | .plain character _ => (scan.readAt pos).call [.printChar character]
  | .conversion letter => convert memory args letter ((scan.readAt pos).readAt (pos + 1))

variable {memory : ByteMemory} {args : Nat → Word} {format : Message} {text : List Byte} {rest : List Byte}
  {piece : Piece} {parts : List Piece} {fuel pos : Nat} {scan after : Scan}

theorem convert_eq (memory : ByteMemory) (args : Nat → Word) (letter : Byte) (scan : Scan) :
    convert memory args letter scan =
      { scan with
        calls := scan.calls ++ conversionCalls memory (args scan.used) letter
        used := scan.used + if (Piece.conversion letter).TakesArgument then 1 else 0 } := by
  simp only [convert, conversionCalls, Piece.TakesArgument, List.mem_cons, List.not_mem_nil, or_false]
  split_ifs <;> simp_all [Scan.call, Scan.vaArg, Scan.start]

/-- The scan keeps what it has recorded, and reads where it begins. -/
theorem scanFormat_reads (run : scanFormat memory args format fuel pos scan = some after) :
    (∀ place ∈ scan.reads, place ∈ after.reads) ∧ pos ∈ after.reads := by
  induction fuel generalizing pos scan with
  | zero => cases run
  | succ fuel ih =>
      rw [scanFormat] at run
      split_ifs at run
      · cases run
        simp only [Scan.readAt]
        exact ⟨fun place member => List.mem_append_left _ member, List.mem_append_right _ List.mem_cons_self⟩
      · have kept := (ih run).1
        rw [convert_eq] at kept
        simp only [Scan.readAt, List.mem_append] at kept
        exact ⟨fun place member => kept place (.inl (.inl member)), kept pos (.inl (.inr List.mem_cons_self))⟩
      · have kept := (ih run).1
        simp only [Scan.readAt, Scan.call, List.mem_append] at kept
        exact ⟨fun place member => kept place (.inl member), kept pos (.inr List.mem_cons_self)⟩

/-- One round of the loop for one piece, whatever follows it. -/
theorem scanFormat_piece (string : NulTerminated format pos (piece.text ++ rest)) :
    NulTerminated format (pos + piece.text.length) rest ∧
      scanFormat memory args format (fuel + 1) pos scan =
        scanFormat memory args format fuel (pos + piece.text.length) (piece.scanned memory args pos scan) := by
  cases piece with
  | plain character ordinary =>
      obtain ⟨here, nonzero, later⟩ := string
      refine ⟨later, ?_⟩
      rw [scanFormat, here, if_neg nonzero, if_neg ordinary]
      rfl
  | conversion letter =>
      obtain ⟨percent, nonzero, here, _, later⟩ := string
      refine ⟨later, ?_⟩
      rw [scanFormat, percent, if_neg nonzero, if_pos rfl, here]
      rfl

theorem scanned_calls : (piece.scanned memory args pos scan).calls = scan.calls ++ piece.calls memory (args scan.used) := by
  cases piece with
  | plain character ordinary => rfl
  | conversion letter => rw [Piece.scanned, convert_eq]; rfl

theorem scanned_used :
    (piece.scanned memory args pos scan).used = scan.used + if piece.TakesArgument then 1 else 0 := by
  cases piece with
  | plain character ordinary => rfl
  | conversion letter => rw [Piece.scanned, convert_eq]; rfl

theorem scanned_reads : ∃ places, (piece.scanned memory args pos scan).reads = scan.reads ++ places ∧
    ∀ place ∈ places, place ≤ pos + piece.text.length := by
  cases piece with
  | plain character ordinary =>
      refine ⟨[pos], rfl, fun place member => ?_⟩
      rw [List.mem_singleton.mp member]
      exact Nat.le_add_right _ _
  | conversion letter =>
      refine ⟨[pos, pos + 1], by rw [Piece.scanned, convert_eq]; simp [Scan.readAt], fun place member => ?_⟩
      simp only [List.mem_cons, List.not_mem_nil, or_false] at member
      simp only [Piece.text, List.length_cons, List.length_nil]
      omega

/-- A format made of whole pieces is scanned up to its terminator. -/
theorem scanFormat_pieces (string : NulTerminated format pos (parts.flatMap Piece.text)) (enough : parts.length < fuel)
    (scan : Scan) :
    ∃ after, scanFormat memory args format fuel pos scan = some after ∧
      after.calls = scan.calls ++ callsOf memory args parts scan.used ∧
      after.used = scan.used + parts.countP (fun piece => piece.TakesArgument) ∧
      ∃ places, after.reads = scan.reads ++ places ∧
        ∀ place ∈ places, place ≤ pos + (parts.flatMap Piece.text).length := by
  obtain ⟨fuel, rfl⟩ := Nat.exists_eq_succ_of_ne_zero (Nat.ne_zero_of_lt enough)
  induction parts generalizing fuel pos scan with
  | nil =>
      have ends : format pos = 0 := string
      refine ⟨scan.readAt pos, by rw [scanFormat, if_pos ends], (List.append_nil _).symm, rfl, [pos], rfl, ?_⟩
      intro place member
      rw [List.mem_singleton.mp member]
      exact Nat.le_add_right _ _
  | cons piece parts ih =>
      rw [List.length_cons] at enough
      obtain ⟨fuel, rfl⟩ := Nat.exists_eq_succ_of_ne_zero (show fuel ≠ 0 by omega)
      obtain ⟨later, step⟩ := @scanFormat_piece memory args format _ piece (fuel + 1) pos scan string
      obtain ⟨first, readFirst, insideFirst⟩ := @scanned_reads memory args piece pos scan
      obtain ⟨after, run, calls, used, places, reads, inside⟩ :=
        ih later (piece.scanned memory args pos scan) fuel (by omega)
      refine ⟨after, step.trans run, ?_, ?_, first ++ places, ?_, ?_⟩
      · rw [calls, scanned_calls, scanned_used, callsOf, List.append_assoc]
      · rw [used, scanned_used, List.countP_cons]
        simp only [decide_eq_true_eq]
        omega
      · rw [reads, readFirst, List.append_assoc]
      · intro place member
        rw [List.flatMap_cons, List.length_append]
        rcases List.mem_append.mp member with member | member
        · exact Nat.le_trans (insideFirst place member) (by omega)
        · have bound := inside place member
          omega

/-- With a `%` behind the last piece the pointer is advanced past the terminator. -/
theorem scanFormat_overreads (string : NulTerminated format pos (parts.flatMap Piece.text ++ [charPercent]))
    (run : scanFormat memory args format fuel pos scan = some after) :
    pos + (parts.flatMap Piece.text ++ [charPercent]).length + 1 ∈ after.reads := by
  cases fuel with
  | zero => cases run
  | succ fuel =>
      induction parts generalizing fuel pos scan with
      | nil =>
          obtain ⟨percent, nonzero, _⟩ := string
          rw [scanFormat, percent, if_neg nonzero, if_pos rfl] at run
          exact (scanFormat_reads run).2
      | cons piece parts ih =>
          rw [List.flatMap_cons, List.append_assoc] at string ⊢
          obtain ⟨later, step⟩ := @scanFormat_piece memory args format _ piece fuel pos scan string
          rw [step] at run
          cases fuel with
          | zero => cases run
          | succ fuel =>
              have behind := ih later fuel run
              rwa [List.length_append, ← Nat.add_assoc pos]

theorem text_pieces (text : List Byte) : text = (pieces text).flatMap Piece.text ∨
    text = (pieces text).flatMap Piece.text ++ [charPercent] := by
  induction text using pieces.induct with
  | case1 => exact .inl rfl
  | case2 character ordinary =>
      refine .inl ?_
      rw [pieces, dif_pos ordinary]
      rfl
  | case3 character percent =>
      refine .inr ?_
      rw [pieces, dif_neg percent, not_not.mp percent]
      rfl
  | case4 character letter rest ordinary ih =>
      rw [pieces, dif_pos ordinary]
      exact ih.imp (congrArg (character :: ·)) (congrArg (character :: ·))
  | case5 character letter rest percent ih =>
      rw [pieces, dif_neg percent, not_not.mp percent]
      exact ih.imp (congrArg (charPercent :: letter :: ·)) (congrArg (charPercent :: letter :: ·))

/-- The number of `%`s the text ends with. -/
def trailingPercents (text : List Byte) : Nat := (text.reverse.takeWhile fun character => character = charPercent).length

theorem trailingPercents_percent (text : List Byte) :
    trailingPercents (text ++ [charPercent]) = trailingPercents text + 1 := by
  rw [trailingPercents, List.reverse_append, List.reverse_singleton, List.singleton_append,
    List.takeWhile_cons_of_pos (by decide), List.length_cons, trailingPercents]

theorem trailingPercents_ordinary (text : List Byte) {character : Byte} (ordinary : character ≠ charPercent) :
    trailingPercents (text ++ [character]) = 0 := by
  rw [trailingPercents, List.reverse_append, List.reverse_singleton, List.singleton_append,
    List.takeWhile_cons_of_neg (by rw [decide_eq_true_eq]; exact ordinary), List.length_nil]

/-- The `%`s at the end of whole pieces stand in pairs. -/
theorem trailingPercents_pieces (parts : List Piece) : trailingPercents (parts.flatMap Piece.text) % 2 = 0 := by
  induction parts using List.reverseRecOn with
  | nil => rfl
  | append_singleton parts piece ih =>
      rw [List.flatMap_append, List.flatMap_singleton]
      cases piece with
      | plain character ordinary => rw [Piece.text, trailingPercents_ordinary _ ordinary]
      | conversion letter =>
          rw [Piece.text, List.append_cons]
          by_cases percent : letter = charPercent
          · rw [percent, trailingPercents_percent, trailingPercents_percent]
            omega
          · rw [trailingPercents_ordinary _ percent]

/-- The scan returns and has read no place behind the terminator, taken an argument
for each conversion with one of the nine letters, and made the calls of the pieces. -/
def ScansExactly (memory : ByteMemory) (args : Nat → Word) (format : Message) (text : List Byte) : Prop :=
  ∃ fuel after, scanFormat memory args format fuel 0 .start = some after ∧
    (∀ place ∈ after.reads, place ≤ text.length) ∧
    after.used = (pieces text).countP (fun piece => piece.TakesArgument) ∧
    after.calls = callsOf memory args (pieces text) 0

/-- A format is scanned as it should be exactly when it does not end inside a
conversion: the `%`s at its end are all the first or all the second of a pair. -/
theorem scan_exact_iff (memory : ByteMemory) (args : Nat → Word) (format : Message) (text : List Byte)
    (string : NulTerminated format 0 text) :
    ScansExactly memory args format text ↔ trailingPercents text % 2 = 0 := by
  rcases text_pieces text with whole | dangling
  · have even : trailingPercents text % 2 = 0 := by
      rw [whole]
      exact trailingPercents_pieces _
    rw [whole] at string
    obtain ⟨after, run, calls, used, places, reads, inside⟩ :=
      @scanFormat_pieces memory args format (pieces text) ((pieces text).length + 1) 0 string (Nat.lt_succ_self _) .start
    refine iff_of_true ⟨_, after, run, ?_, by rw [used, Scan.start, Nat.zero_add], by rw [calls]; rfl⟩ even
    intro place member
    rw [reads] at member
    have bound := inside place member
    rwa [Nat.zero_add, ← whole] at bound
  · have odd : ¬ trailingPercents text % 2 = 0 := by
      have pairs := trailingPercents_pieces (pieces text)
      rw [dangling, trailingPercents_percent]
      omega
    refine iff_of_false ?_ odd
    rintro ⟨fuel, after, run, inside, _⟩
    rw [dangling] at string
    have behind := inside _ (scanFormat_overreads string run)
    rw [← dangling] at behind
    omega

theorem scan_exact_iff_number : ∃ fuel after,
    scanFormat (fun _ => 0) (fun _ => 7) (zeroPadded [charPercent, chard, 10]) fuel 0 .start = some after ∧ after.used = 1 := by
  obtain ⟨fuel, after, run, _, used, _⟩ := (scan_exact_iff (fun _ => 0) (fun _ => 7) _ [charPercent, chard, 10]
    (zeroPadded_nulTerminated (by decide))).mpr rfl
  exact ⟨fuel, after, run, used⟩

/-- `printf("%")` reads what follows the format in memory. -/
theorem percent_overreads : ¬ ∀ (memory : ByteMemory) (args : Nat → Word) (format : Message) (text : List Byte),
    NulTerminated format 0 text → ScansExactly memory args format text := by
  intro always
  have string := @zeroPadded_nulTerminated [charPercent] (by decide)
  obtain ⟨fuel, after, run, inside, _⟩ := always (fun _ => 0) (fun _ => 0) _ _ string
  have behind := inside _ (@scanFormat_overreads _ _ _ [] _ _ _ _ string run)
  exact absurd behind (by decide)

end Printf

end ScratchOs
