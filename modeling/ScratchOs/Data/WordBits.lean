import Mathlib.Algebra.Group.Nat.Defs
import Mathlib.Data.Nat.Basic
import Mathlib.Logic.Function.Basic

namespace ScratchOs.Data

/-! An unbounded array of `w`-bit words read as one sequence of bits.

Bit `i` of the sequence is bit `i % w` of word `i / w`. Every update goes
through the word that holds the bit, so the lemmas below are the only place
where masks and shifts have to be taken apart.
-/

abbrev WordBits (w : Nat) := Nat → BitVec w

namespace WordBits

variable {w : Nat}

def test (bits : WordBits w) (index : Nat) : Bool :=
  bits (index / w) &&& (1#w <<< (index % w)) != 0#w

def set (bits : WordBits w) (index : Nat) : WordBits w :=
  Function.update bits (index / w) (bits (index / w) ||| (1#w <<< (index % w)))

def clear (bits : WordBits w) (index : Nat) : WordBits w :=
  Function.update bits (index / w) (bits (index / w) &&& ~~~(1#w <<< (index % w)))

/-- Stores one byte of the array, the words being little-endian. -/
def setByte (bits : WordBits w) (index : Nat) (value : BitVec 8) : WordBits w :=
  let lane := 8 * (index % (w / 8))
  Function.update bits (index / (w / 8))
    ((bits (index / (w / 8)) &&& ~~~((0xff#8).setWidth w <<< lane)) ||| (value.setWidth w <<< lane))

def setRange (bits : WordBits w) (start : Nat) : Nat → WordBits w
  | 0 => bits
  | count + 1 => setRange (bits.set start) (start + 1) count

def clearRange (bits : WordBits w) (start : Nat) : Nat → WordBits w
  | 0 => bits
  | count + 1 => clearRange (bits.clear start) (start + 1) count

/-- `count` consecutive byte stores from byte `start` on. -/
def fill (bits : WordBits w) (value : BitVec 8) (start : Nat) : Nat → WordBits w
  | 0 => bits
  | count + 1 => fill (bits.setByte start value) value (start + 1) count

theorem getLsbD_one_shiftLeft {place bit : Nat} (inside : place < w) :
    (1#w <<< place).getLsbD bit = decide (bit = place) := by
  rw [BitVec.getLsbD_shiftLeft, BitVec.getLsbD_one]
  by_cases same : bit = place
  · subst same
    simp [inside, Nat.zero_lt_of_lt inside]
  · by_cases below : bit < place
    · simp [below, same]
    · have shifted : ¬ bit - place = 0 := by omega
      simp [same, shifted]

/-- Testing through a one-bit mask reads exactly that bit. -/
theorem test_eq_getLsbD (positive : 0 < w) (bits : WordBits w) (index : Nat) :
    bits.test index = (bits (index / w)).getLsbD (index % w) := by
  have inside : index % w < w := Nat.mod_lt _ positive
  have masked : ∀ bit, (bits (index / w) &&& (1#w <<< (index % w))).getLsbD bit =
      ((bits (index / w)).getLsbD bit && decide (bit = index % w)) := by
    intro bit
    rw [BitVec.getLsbD_and, getLsbD_one_shiftLeft inside]
  cases read : (bits (index / w)).getLsbD (index % w) with
  | true =>
      simp only [test, bne_iff_ne, ne_eq]
      intro zero
      have value := masked (index % w)
      rw [zero, read] at value
      simp at value
  | false =>
      simp only [test, bne_eq_false_iff_eq]
      apply BitVec.eq_of_getLsbD_eq
      intro bit _
      rw [masked bit, BitVec.getLsbD_zero]
      by_cases same : bit = index % w
      · simp [same, read]
      · simp [same]

/-- The bits determine the words. -/
theorem ext_test (positive : 0 < w) {left right : WordBits w} (same : ∀ index, left.test index = right.test index) :
    left = right := by
  funext word
  apply BitVec.eq_of_getLsbD_eq
  intro bit inside
  have place := same (bit + w * word)
  rw [test_eq_getLsbD positive, test_eq_getLsbD positive, Nat.add_mul_div_left _ _ positive, Nat.add_mul_mod_self_left,
    Nat.div_eq_of_lt inside, Nat.mod_eq_of_lt inside, Nat.zero_add] at place
  exact place

theorem index_eq_iff (w left right : Nat) :
    left = right ↔ left / w = right / w ∧ left % w = right % w := by
  constructor
  · rintro rfl
    exact ⟨rfl, rfl⟩
  · rintro ⟨quotient, remainder⟩
    rw [← Nat.div_add_mod left w, quotient, remainder, Nat.div_add_mod]

theorem test_set (positive : 0 < w) (bits : WordBits w) (index other : Nat) :
    (bits.set index).test other = (decide (other = index) || bits.test other) := by
  rw [test_eq_getLsbD positive, test_eq_getLsbD positive, set]
  by_cases word : other / w = index / w
  · rw [word, Function.update_self, BitVec.getLsbD_or,
      getLsbD_one_shiftLeft (Nat.mod_lt _ positive), Bool.or_comm]
    simp only [index_eq_iff w other index, word, true_and]
  · have different : other ≠ index := fun same => word (by rw [same])
    rw [Function.update_of_ne word]
    simp [different]

theorem test_clear (positive : 0 < w) (bits : WordBits w) (index other : Nat) :
    (bits.clear index).test other = (!decide (other = index) && bits.test other) := by
  rw [test_eq_getLsbD positive, test_eq_getLsbD positive, clear]
  by_cases word : other / w = index / w
  · rw [word, Function.update_self, BitVec.getLsbD_and, BitVec.getLsbD_not,
      getLsbD_one_shiftLeft (Nat.mod_lt _ positive), Bool.and_comm]
    simp only [index_eq_iff w other index, word, true_and, Nat.mod_lt _ positive,
      decide_true, Bool.true_and]
  · have different : other ≠ index := fun same => word (by rw [same])
    rw [Function.update_of_ne word]
    simp [different]

theorem test_setRange (positive : 0 < w) (bits : WordBits w) (start count other : Nat) :
    (bits.setRange start count).test other =
      (decide (start ≤ other ∧ other < start + count) || bits.test other) := by
  induction count generalizing bits start with
  | zero =>
      have outside : ¬ (start ≤ other ∧ other < start + 0) := by omega
      simp only [setRange, outside, decide_false, Bool.false_or]
  | succ count ih =>
      rw [setRange, ih, test_set positive, ← Bool.or_assoc]
      congr 1
      rw [← Bool.decide_or]
      congr 1
      apply propext
      omega

theorem test_clearRange (positive : 0 < w) (bits : WordBits w) (start count other : Nat) :
    (bits.clearRange start count).test other =
      (!decide (start ≤ other ∧ other < start + count) && bits.test other) := by
  induction count generalizing bits start with
  | zero =>
      have outside : ¬ (start ≤ other ∧ other < start + 0) := by omega
      simp only [clearRange, outside, decide_false, Bool.not_false, Bool.true_and]
  | succ count ih =>
      rw [clearRange, ih, test_clear positive, ← Bool.and_assoc, ← Bool.not_or, ← Bool.decide_or]
      congr 3
      apply propext
      omega

/-- A byte store of a word array replaces the eight bits of that byte. -/
theorem test_setByte {lanes : Nat} (width : w = 8 * lanes) (positive : 0 < lanes)
    (bits : WordBits w) (index : Nat) (value : BitVec 8) (other : Nat) :
    (bits.setByte index value).test other =
      if other / 8 = index then value.getLsbD (other % 8) else bits.test other := by
  have bytes : w / 8 = lanes := by omega
  have wordOf : other / w = other / 8 / lanes := by rw [width, Nat.div_div_eq_div_mul]
  have placeOf : other % w = other % 8 + 8 * (other / 8 % lanes) := by rw [width, Nat.mod_mul]
  have place : other % 8 < 8 := Nat.mod_lt _ (by decide)
  have lane : index % lanes < lanes := Nat.mod_lt _ positive
  have inside : other % w < w := Nat.mod_lt _ (by omega)
  rw [test_eq_getLsbD (by omega), test_eq_getLsbD (by omega), setByte]
  simp only [bytes, wordOf]
  by_cases word : other / 8 / lanes = index / lanes
  · rw [word, Function.update_self, BitVec.getLsbD_or, BitVec.getLsbD_and, BitVec.getLsbD_not,
      BitVec.getLsbD_shiftLeft, BitVec.getLsbD_shiftLeft, BitVec.getLsbD_setWidth,
      BitVec.getLsbD_setWidth]
    by_cases same : other / 8 = index
    · have offset : other % w - 8 * (index % lanes) = other % 8 := by rw [placeOf, same]; omega
      have reached : ¬ other % w < 8 * (index % lanes) := by rw [placeOf, same]; omega
      have byteBit : (0xff#8).getLsbD (other % 8) = true := by
        have allOnes : (0xff#8) = BitVec.allOnes 8 := rfl
        rw [allOnes, BitVec.getLsbD_allOnes]
        simpa using place
      have room : other % 8 < w := by omega
      simp [offset, reached, inside, byteBit, room, same]
    · have laneDiffers : other / 8 % lanes ≠ index % lanes := by
        intro laneSame
        exact same (by rw [← Nat.div_add_mod (other / 8) lanes, word, laneSame, Nat.div_add_mod])
      have outside : other % w < 8 * (index % lanes) ∨ 8 ≤ other % w - 8 * (index % lanes) := by
        rw [placeOf]
        omega
      rcases outside with before | after
      · simp [before, inside, same]
      · simp [BitVec.getLsbD_of_ge _ _ after, inside, same]
  · have different : other / 8 ≠ index := fun same => word (by rw [same])
    rw [Function.update_of_ne word, if_neg different]

theorem test_fill {lanes : Nat} (width : w = 8 * lanes) (positive : 0 < lanes)
    (bits : WordBits w) (value : BitVec 8) (start count other : Nat) :
    (bits.fill value start count).test other =
      if start ≤ other / 8 ∧ other / 8 < start + count then value.getLsbD (other % 8)
      else bits.test other := by
  induction count generalizing bits start with
  | zero =>
      have outside : ¬ (start ≤ other / 8 ∧ other / 8 < start + 0) := by omega
      rw [if_neg outside, fill]
  | succ count ih =>
      rw [fill, ih, test_setByte width positive]
      by_cases same : other / 8 = start
      · have inside : start ≤ other / 8 ∧ other / 8 < start + (count + 1) := by omega
        have past : ¬ (start + 1 ≤ other / 8 ∧ other / 8 < start + 1 + count) := by omega
        rw [if_neg past, if_pos same, if_pos inside]
      · have shifted : (start + 1 ≤ other / 8 ∧ other / 8 < start + 1 + count) ↔
            (start ≤ other / 8 ∧ other / 8 < start + (count + 1)) := by omega
        rw [if_neg same]
        simp only [shifted]

end WordBits

end ScratchOs.Data
