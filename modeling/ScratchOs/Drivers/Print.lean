import Mathlib.Data.Nat.Digits.Lemmas
import ScratchOs.Drivers.Screen

namespace ScratchOs

open Data

/-! `print_number`. Its text is what it passes to `print_char`, character by
character. It is `none` where the C code has no meaning: a division by zero, or
an access outside of the buffer or of `possibleChars`. -/

namespace Print

def charMinus : Byte := 45
def charZero : Byte := 48

/-- `"0123456789abcdef"` with its terminator. -/
def possibleChars : List Byte :=
  [48, 49, 50, 51, 52, 53, 54, 55, 56, 57, 97, 98, 99, 100, 101, 102, 0]

/-- `buffer[index] = byte`. -/
def putByte (buffer : List Byte) (index : Nat) (byte : Byte) : Option (List Byte) :=
  if index < buffer.length then some (buffer.set index byte) else none

/-- The loop that divides. `buffer[--pos]` is behind the front of the buffer for `pos = 0`. -/
def storeDigits (radix : Word) : Nat → Word → List Byte → Option (Nat × List Byte)
  | 0, unum, buffer => if unum = 0 then some (0, buffer) else none
  | pos + 1, unum, buffer =>
      if unum = 0 then some (pos + 1, buffer)
      else if radix = 0 then none
      else do
        let digit ← possibleChars[(unum % radix).toNat]?
        let buffer ← putByte buffer pos digit
        storeDigits radix pos (unum / radix) buffer

/-- The loop that prints, on the part of the buffer from `pos` on. -/
def readDigits : List Byte → Option (List Byte)
  | [] => none
  | byte :: rest => if byte = 0 then some [] else do
      let text ← readDigits rest
      some (byte :: text)

def printNumber (num radix : Word) (isSigned : Bool) : Option (List Byte) := do
  let buffer : List Byte := List.replicate 65 0
  let sign := if isSigned = true ∧ num.toInt < 0 then [charMinus] else []
  if num = 0 then some (sign ++ [charZero])
  else
    let (pos, buffer) ← storeDigits radix 63 num buffer
    let text ← readDigits (buffer.drop pos)
    some (sign ++ text)

def digitChar (digit : Nat) : Byte := possibleChars[digit]?.getD 0

/-- A number's digits from the front. -/
def digitsOf (radix num : Nat) : List Nat := (Nat.digits radix num).reverse

def textOf (radix num : Nat) : List Byte := (digitsOf radix num).map digitChar

variable {radix num unum : Word} {buffer after text rest : List Byte} {digit pos index : Nat} {byte : Byte}

/-! Digits and characters. -/

theorem possibleChars_digit (small : digit < 16) : possibleChars[digit]? = some (digitChar digit) := by
  have inside : digit < possibleChars.length := Nat.lt_of_lt_of_le small (by decide)
  rw [digitChar, List.getElem?_eq_getElem inside, Option.getD_some]

theorem digitChar_ne_zero (small : digit < 16) : digitChar digit ≠ 0 := by
  revert digit
  decide

theorem digitsOf_step {base value : Nat} (lower : 2 ≤ base) (positive : 0 < value) :
    digitsOf base value = digitsOf base (value / base) ++ [value % base] := by
  rw [digitsOf, Nat.digits_def' lower positive, List.reverse_cons, digitsOf]

theorem textOf_step {base value : Nat} (lower : 2 ≤ base) (positive : 0 < value) :
    textOf base value = textOf base (value / base) ++ [digitChar (value % base)] := by
  rw [textOf, digitsOf_step lower positive, List.map_append]
  rfl

theorem digitsOf_lt {base value : Nat} (lower : 2 ≤ base) : ∀ digit ∈ digitsOf base value, digit < base :=
  fun _ member => Nat.digits_lt_base lower (List.mem_reverse.mp member)

theorem textOf_ne_zero {base value : Nat} (lower : 2 ≤ base) (upper : base ≤ 16) :
    ∀ byte ∈ textOf base value, byte ≠ 0 := by
  intro byte member
  obtain ⟨digit, among, rfl⟩ := List.mem_map.mp member
  exact digitChar_ne_zero (Nat.lt_of_lt_of_le (digitsOf_lt lower digit among) upper)

theorem digitsOf_head {base value : Nat} (positive : value ≠ 0) : (digitsOf base value).head? ≠ some 0 := by
  have nonempty : Nat.digits base value ≠ [] := Nat.digits_ne_nil_iff_ne_zero.mpr positive
  rw [digitsOf, List.head?_reverse, List.getLast?_eq_some_getLast nonempty]
  exact fun zero => Nat.getLast_digit_ne_zero base positive (Option.some.inj zero)

theorem digitsOf_value (base value : Nat) : Nat.ofDigits base (digitsOf base value).reverse = value := by
  rw [digitsOf, List.reverse_reverse, Nat.ofDigits_digits]

/-! The buffer. -/

theorem putByte_drop (inside : index < buffer.length) :
    ∃ after, putByte buffer index byte = some after ∧ after.length = buffer.length ∧
      after.drop index = byte :: buffer.drop (index + 1) := by
  refine ⟨_, if_pos inside, List.length_set, ?_⟩
  rw [List.drop_eq_getElem_cons (by rwa [List.length_set]), List.getElem_set_self,
    List.drop_set_of_lt (Nat.lt_succ_self index)]

/-- The loop puts the digits in front of what is in the buffer from `pos` on. -/
theorem storeDigits_spec (lower : 2 ≤ radix.toNat) (upper : radix.toNat ≤ 16)
    (room : (Nat.digits radix.toNat unum.toNat).length ≤ pos) (inside : pos ≤ buffer.length) :
    ∃ start after, storeDigits radix pos unum buffer = some (start, after) ∧
      after.drop start = textOf radix.toNat unum.toNat ++ buffer.drop pos := by
  induction pos generalizing unum buffer with
  | zero =>
      obtain rfl : unum = 0 := by
        have empty := Nat.digits_eq_nil_iff_eq_zero.mp (List.length_eq_zero_iff.mp (Nat.le_zero.mp room))
        exact BitVec.eq_of_toNat_eq empty
      exact ⟨0, buffer, rfl, by simp [textOf, digitsOf]⟩
  | succ pos ih =>
      by_cases done : unum = 0
      · subst done
        exact ⟨pos + 1, buffer, by rw [storeDigits, if_pos rfl], by simp [textOf, digitsOf]⟩
      · have positive : 0 < unum.toNat := BitVec.toNat_pos_of_ne_zero done
        have divides : radix ≠ 0 := by
          rintro rfl
          exact absurd lower (by decide)
        have remainder : (unum % radix).toNat = unum.toNat % radix.toNat := BitVec.toNat_umod
        have quotient : (unum / radix).toNat = unum.toNat / radix.toNat := BitVec.toNat_udiv
        have small : unum.toNat % radix.toNat < 16 := Nat.lt_of_lt_of_le (Nat.mod_lt _ (by omega)) upper
        rw [Nat.digits_def' lower positive, List.length_cons] at room
        obtain ⟨middle, stored, length, dropped⟩ :=
          @putByte_drop buffer pos (digitChar (unum.toNat % radix.toNat)) (by omega)
        obtain ⟨start, after, run, result⟩ := @ih (unum / radix) middle (by rw [quotient]; omega) (by omega)
        refine ⟨start, after, ?_, ?_⟩
        · rw [storeDigits, if_neg done, if_neg divides, remainder, possibleChars_digit small, Option.bind_eq_bind,
            Option.bind_some, stored, Option.bind_eq_bind, Option.bind_some, run]
        · rw [result, dropped, quotient, textOf_step lower positive, List.append_assoc, List.singleton_append]

theorem readDigits_text (nonzero : ∀ byte ∈ text, byte ≠ 0) : readDigits (text ++ 0 :: rest) = some text := by
  induction text with
  | nil => rfl
  | cons byte text ih =>
      rw [List.cons_append, readDigits, if_neg (nonzero byte List.mem_cons_self),
        ih fun other member => nonzero other (List.mem_cons_of_mem _ member)]
      rfl

/-- 32 bits have at most 32 digits: half of the buffer stays unused. -/
theorem length_digits_le (num : Word) {base : Nat} (lower : 2 ≤ base) : (Nat.digits base num.toNat).length ≤ 32 := by
  rw [Nat.digits_length_le_iff lower]
  exact Nat.lt_of_lt_of_le num.isLt (Nat.pow_le_pow_left lower 32)

/-- The sign and the digits of the pattern of bits. -/
theorem printNumber_text (isSigned : Bool) (nonzero : num ≠ 0) (lower : 2 ≤ radix.toNat) (upper : radix.toNat ≤ 16) :
    printNumber num radix isSigned = some ((if isSigned = true ∧ num.toInt < 0 then [charMinus] else []) ++
      textOf radix.toNat num.toNat) := by
  have few := length_digits_le num lower
  obtain ⟨start, after, run, result⟩ :=
    @storeDigits_spec radix num (List.replicate 65 0) 63 lower upper (by omega) (by rw [List.length_replicate]; decide)
  have terminated : after.drop start = textOf radix.toNat num.toNat ++ 0 :: [0] := result
  simp only [printNumber, if_neg nonzero, run, Option.bind_eq_bind, Option.bind_some, terminated,
    readDigits_text (textOf_ne_zero lower upper)]

/-- Without a sign the text is the number in its base, written the usual way. -/
theorem printNumber_unsigned (num radix : Word) (lower : 2 ≤ radix.toNat) (upper : radix.toNat ≤ 16) :
    ∃ digits : List Nat, printNumber num radix false = some (digits.map digitChar) ∧ digits ≠ [] ∧
      (∀ digit ∈ digits, digit < radix.toNat) ∧ (digits.head? = some 0 → num = 0) ∧
      Nat.ofDigits radix.toNat digits.reverse = num.toNat := by
  by_cases zero : num = 0
  · subst zero
    refine ⟨[0], rfl, List.cons_ne_nil 0 [], fun digit member => ?_, fun _ => rfl, rfl⟩
    cases List.mem_singleton.mp member
    omega
  · have positive : num.toNat ≠ 0 := fun none => zero (BitVec.eq_of_toNat_eq none)
    refine ⟨digitsOf radix.toNat num.toNat, printNumber_text false zero lower upper, ?_, digitsOf_lt lower,
      fun leading => absurd leading (digitsOf_head positive), digitsOf_value _ _⟩
    rw [digitsOf, ne_eq, List.reverse_eq_nil_iff]
    exact Nat.digits_ne_nil_iff_ne_zero.mpr positive

theorem printNumber_unsigned_hex : ∃ digits : List Nat,
    printNumber 0xb8000 16 false = some (digits.map digitChar) ∧ Nat.ofDigits 16 digits.reverse = 0xb8000 := by
  obtain ⟨digits, text, _, _, _, value⟩ := printNumber_unsigned 0xb8000 16 (by decide) (by decide)
  exact ⟨digits, text, value⟩

example : printNumber 255 16 false = some [102, 102] := by decide

end Print

end ScratchOs
