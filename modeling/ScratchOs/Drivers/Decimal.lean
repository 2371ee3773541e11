import ScratchOs.Drivers.Printf

namespace ScratchOs

open Data Print Printf

/-! Signed numbers on the console. -/

namespace Print

/-- A number in base ten, without superfluous zeros. -/
def numeral (value : Nat) : List Byte := if value = 0 then [charZero] else textOf 10 value

/-- An integer: a minus sign if it is negative, and its absolute value. -/
def decimalText (value : Int) : List Byte := (if value < 0 then [charMinus] else []) ++ numeral value.natAbs

def digitValue (character : Byte) : Option Nat :=
  if 48 ≤ character.toNat ∧ character.toNat < 58 then some (character.toNat - 48) else none

/-- One character more behind those that give `value`. -/
def appendDigit (value : Nat) (character : Byte) : Option Nat := (digitValue character).map (10 * value + ·)

def parseNumeral (text : List Byte) : Option Nat := if text = [] then none else text.foldlM appendDigit 0

def parseDecimal : List Byte → Option Int
  | [] => none
  | character :: rest =>
      if character = charMinus then (parseNumeral rest).map fun value : Nat => -(value : Int)
      else (parseNumeral (character :: rest)).map fun value : Nat => (value : Int)

variable {value digit : Nat}

theorem digitValue_digitChar (small : digit < 10) : digitValue (digitChar digit) = some digit := by
  revert digit
  decide

theorem foldlM_textOf (positive : 0 < value) : (textOf 10 value).foldlM appendDigit 0 = some value := by
  induction value using Nat.strongRecOn with
  | ind value ih =>
      have last : appendDigit (value / 10) (digitChar (value % 10)) = some value := by
        rw [appendDigit, digitValue_digitChar (Nat.mod_lt _ (by decide)), Option.map_some, Nat.div_add_mod]
      rw [textOf_step (by decide) positive, List.foldlM_append]
      by_cases single : value / 10 = 0
      · rw [single] at last ⊢
        simpa [textOf, digitsOf] using last
      · rw [ih (value / 10) (Nat.div_lt_self positive (by decide)) (Nat.pos_of_ne_zero single)]
        simpa using last

theorem numeral_ne_nil (value : Nat) : numeral value ≠ [] := by
  rw [numeral]
  split
  · exact List.cons_ne_nil _ _
  · next nonzero => rw [textOf_step (by decide) (Nat.pos_of_ne_zero nonzero)]; simp

theorem parseNumeral_numeral (value : Nat) : parseNumeral (numeral value) = some value := by
  rw [parseNumeral, if_neg (numeral_ne_nil value), numeral]
  split
  · next zero => rw [zero]; rfl
  · next nonzero => exact foldlM_textOf (Nat.pos_of_ne_zero nonzero)

theorem numeral_unsigned (value : Nat) : ∀ character ∈ numeral value, character ≠ charMinus := by
  have digits : ∀ digit < 10, digitChar digit ≠ charMinus := by decide
  intro character member
  rw [numeral] at member
  split at member
  · rw [List.mem_singleton.mp member]
    decide
  · obtain ⟨digit, among, rfl⟩ := List.mem_map.mp member
    exact digits digit (digitsOf_lt (by decide) digit among)

/-- A sign in front of a numeral negates it. -/
theorem parseDecimal_minus (value : Nat) : parseDecimal (charMinus :: numeral value) = some (-(value : Int)) := by
  rw [parseDecimal, if_pos rfl, parseNumeral_numeral, Option.map_some]

theorem parseDecimal_numeral (value : Nat) : parseDecimal (numeral value) = some (value : Int) := by
  obtain ⟨character, rest, shape⟩ := List.exists_cons_of_ne_nil (numeral_ne_nil value)
  have unsigned := numeral_unsigned value character (by rw [shape]; exact List.mem_cons_self)
  rw [shape, parseDecimal, if_neg unsigned, ← shape, parseNumeral_numeral, Option.map_some]

theorem parseDecimal_decimalText (value : Int) : parseDecimal (decimalText value) = some value := by
  rw [decimalText]
  split
  · next negative =>
      rw [List.singleton_append, parseDecimal_minus]
      congr 1
      omega
  · next nonnegative =>
      rw [List.nil_append, parseDecimal_numeral]
      congr 1
      omega

variable {num : Word}

/-- The sign is the integer's, the digits are those of its pattern of bits. -/
theorem printNumber_signed (num : Word) :
    printNumber num 10 true = some ((if num.toInt < 0 then [charMinus] else []) ++ numeral num.toNat) := by
  by_cases zero : num = 0
  · rw [zero]
    rfl
  · have positive : num.toNat ≠ 0 := fun none => zero (BitVec.eq_of_toNat_eq none)
    rw [printNumber_text true zero (by decide) (by decide), numeral, if_neg positive]
    simp

theorem toInt_negative (negative : num.toInt < 0) : num.toInt = num.toNat - 2 ^ 32 := by
  rw [BitVec.toInt_eq_toNat_cond] at negative ⊢
  split at negative
  · omega
  · next large => rw [if_neg large]; rfl

theorem toInt_nonnegative (nonnegative : 0 ≤ num.toInt) : num.toInt = num.toNat := by
  have bound := num.isLt
  rw [BitVec.toInt_eq_toNat_cond] at nonnegative ⊢
  split at nonnegative
  · next small => rw [if_pos small]
  · omega

theorem numeral_injective {left right : Nat} (same : numeral left = numeral right) : left = right := by
  have parsed := congrArg parseNumeral same
  rw [parseNumeral_numeral, parseNumeral_numeral] at parsed
  exact Option.some.inj parsed

/-- The absolute value and the pattern of bits are one number twice: from 0 up,
and for the most negative integer. -/
theorem printNumber_decimal_iff (num : Word) :
    printNumber num 10 true = some (decimalText num.toInt) ↔ 0 ≤ num.toInt ∨ num = 0x80000000 := by
  have bound := num.isLt
  rw [printNumber_signed, decimalText, Option.some_inj, List.append_right_inj]
  by_cases negative : num.toInt < 0
  · have value := toInt_negative negative
    refine ⟨fun same => .inr (BitVec.eq_of_toNat_eq ?_), ?_⟩
    · have numbers := numeral_injective same
      change num.toNat = 2 ^ 31
      omega
    · rintro (nonnegative | rfl)
      · omega
      · rfl
  · have value := toInt_nonnegative (Int.not_lt.mp negative)
    refine iff_of_true ?_ (.inl (Int.not_lt.mp negative))
    rw [value, Int.natAbs_natCast]

/-- What is promised of `%d`: the decimal text of the integer, on the console and
from `print_number` alone, and the integer can be read back from it. -/
structure PrintsDecimal (num : Word) : Prop where
  number : printNumber num 10 true = some (decimalText num.toInt)
  shown : ∀ (memory : ByteMemory) (args : Nat → Word) (format : Message) (before : Output), args 0 = num →
    NulTerminated format 0 [charPercent, chard] →
    ∃ fuel after, printf memory args format fuel before = some after ∧ Shown (decimalText num.toInt) before after
  parsed : parseDecimal (decimalText num.toInt) = some num.toInt

/-- `%d` shows an `int` as it should exactly when it is not negative or is the most
negative one: the digits are those of the unnegated `unsigned int`. -/
theorem printsDecimal_iff (num : Word) : PrintsDecimal num ↔ 0 ≤ num.toInt ∨ num = 0x80000000 := by
  refine ⟨fun prints => (printNumber_decimal_iff num).mp prints.number, fun exact => ?_⟩
  have number := (printNumber_decimal_iff num).mpr exact
  refine ⟨number, ?_, parseDecimal_decimalText _⟩
  intro memory args format before argument string
  have shows : List.Forall₂ Call.Shows (callsOf memory args (pieces [charPercent, chard]) 0) [decimalText num.toInt] := by
    have made : callsOf memory args (pieces [charPercent, chard]) 0 = [.printNumber (args 0) 10 true] := rfl
    rw [made, argument]
    exact .cons (.printNumber number) .nil
  obtain ⟨fuel, after, run, shown⟩ := printf_shows string (by decide) shows before
  exact ⟨fuel, after, run, by rwa [List.flatten_singleton] at shown⟩

/-- `-1` is shown as `-4294967295`. -/
theorem minusOne_misprinted : ¬ ∀ num, PrintsDecimal num := by
  intro always
  have number := (always (-1)).number
  revert number
  decide

end Print

end ScratchOs
