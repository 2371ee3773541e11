import Mathlib.Algebra.Group.Nat.Defs
import Mathlib.Data.Set.Function
import Mathlib.Data.Set.Lattice
import Mathlib.Logic.Function.Basic
import Mathlib.Order.CompletePartialOrder

namespace ScratchOs.Data

/-! A flat 32-bit byte-addressed memory with little-endian words.

Memories are compared with `Set.EqOn`: an access depends only on the bytes it
touches, and a store changes only those. The spans below are stated on natural
numbers so that address arithmetic ends in `omega`.
-/

abbrev Word := BitVec 32
abbrev Byte := BitVec 8
abbrev ByteMemory := Word → Byte

def span (start count : Nat) : Set Word :=
  { address | start ≤ address.toNat ∧ address.toNat < start + count }

@[simp] theorem mem_span {start count : Nat} {address : Word} :
    address ∈ span start count ↔ start ≤ address.toNat ∧ address.toNat < start + count := Iff.rfl

theorem mem_span_to {start finish : Nat} {address : Word} :
    address ∈ span start (finish + 1 - start) ↔ start ≤ address.toNat ∧ address.toNat ≤ finish := by
  rw [mem_span]
  omega

def byteOf (value : Word) (lane : Nat) : Byte := value.extractLsb' (8 * lane) 8

def joinBytes (byte0 byte1 byte2 byte3 : Byte) : Word := byte3 ++ byte2 ++ byte1 ++ byte0

theorem joinBytes_byteOf (value : Word) :
    joinBytes (byteOf value 0) (byteOf value 1) (byteOf value 2) (byteOf value 3) = value := by
  apply BitVec.eq_of_getLsbD_eq
  intro bit inside
  simp only [joinBytes, byteOf, BitVec.getLsbD_append, BitVec.getLsbD_extractLsb']
  by_cases first : bit < 8
  · simp [first]
  · by_cases second : bit - 8 < 8
    · simp only [first, second, if_false, if_true, decide_true, Bool.true_and]
      congr 1
      omega
    · by_cases third : bit - 8 - 8 < 8
      · simp only [first, second, third, if_false, if_true, decide_true, Bool.true_and]
        congr 1
        omega
      · have fourth : bit - 8 - 8 - 8 < 8 := by omega
        simp only [first, second, third, fourth, if_false, decide_true, Bool.true_and]
        congr 1
        omega

theorem joinBytes_toNat (byte0 byte1 byte2 byte3 : Byte) :
    (joinBytes byte0 byte1 byte2 byte3).toNat =
      byte0.toNat + 256 * byte1.toNat + 65536 * byte2.toNat + 16777216 * byte3.toNat := by
  rw [joinBytes, BitVec.toNat_append, BitVec.toNat_append, BitVec.toNat_append,
    ← Nat.shiftLeft_add_eq_or_of_lt byte0.isLt, ← Nat.shiftLeft_add_eq_or_of_lt byte1.isLt,
    ← Nat.shiftLeft_add_eq_or_of_lt byte2.isLt]
  simp only [Nat.shiftLeft_eq]
  omega

namespace ByteMemory

def read32 (memory : ByteMemory) (address : Word) : Word :=
  joinBytes (memory address) (memory (address + 1)) (memory (address + 2)) (memory (address + 3))

def write8 (memory : ByteMemory) (address : Word) (value : Byte) : ByteMemory :=
  Function.update memory address value

def write32 (memory : ByteMemory) (address value : Word) : ByteMemory :=
  (((memory.write8 address (byteOf value 0)).write8 (address + 1) (byteOf value 1)).write8
    (address + 2) (byteOf value 2)).write8 (address + 3) (byteOf value 3)

/-- `while (n--) *p++ = value`. -/
def fill (memory : ByteMemory) (address : Word) (value : Byte) : Nat → ByteMemory
  | 0 => memory
  | count + 1 => fill (memory.write8 address value) (address + 1) value count

variable {memory other : ByteMemory} {address place value : Word}

@[simp] theorem write8_self (memory : ByteMemory) (address : Word) (value : Byte) :
    memory.write8 address value address = value := Function.update_self ..

theorem write8_of_ne {value : Byte} (different : place ≠ address) :
    memory.write8 address value place = memory place := Function.update_of_ne different ..

theorem read32_congr (same : Set.EqOn memory other (span address.toNat 4))
    (room : address.toNat + 4 ≤ 2 ^ 32) : memory.read32 address = other.read32 address := by
  have lane0 := same (show address ∈ span address.toNat 4 by simp)
  have lane1 := same (show address + 1 ∈ span address.toNat 4 by simp only [mem_span]; bv_omega)
  have lane2 := same (show address + 2 ∈ span address.toNat 4 by simp only [mem_span]; bv_omega)
  have lane3 := same (show address + 3 ∈ span address.toNat 4 by simp only [mem_span]; bv_omega)
  simp only [read32, lane0, lane1, lane2, lane3]

theorem write8_outside (memory : ByteMemory) (address : Word) (value : Byte) :
    Set.EqOn (memory.write8 address value) memory (span address.toNat 1)ᶜ := by
  intro place outside
  apply write8_of_ne
  rintro rfl
  exact outside (by simp)

theorem write32_outside (memory : ByteMemory) (value : Word) (room : address.toNat + 4 ≤ 2 ^ 32) :
    Set.EqOn (memory.write32 address value) memory (span address.toNat 4)ᶜ := by
  intro place outside
  simp only [Set.mem_compl_iff, mem_span] at outside
  rw [write32, write8_of_ne (by bv_omega), write8_of_ne (by bv_omega), write8_of_ne (by bv_omega),
    write8_of_ne (by bv_omega)]

@[simp] theorem read32_write32 : (memory.write32 address value).read32 address = value := by
  have lane0 : memory.write32 address value address = byteOf value 0 := by
    rw [write32, write8_of_ne (by bv_omega), write8_of_ne (by bv_omega), write8_of_ne (by bv_omega),
      write8_self]
  have lane1 : memory.write32 address value (address + 1) = byteOf value 1 := by
    rw [write32, write8_of_ne (by bv_omega), write8_of_ne (by bv_omega), write8_self]
  have lane2 : memory.write32 address value (address + 2) = byteOf value 2 := by
    rw [write32, write8_of_ne (by bv_omega), write8_self]
  have lane3 : memory.write32 address value (address + 3) = byteOf value 3 := by
    rw [write32, write8_self]
  rw [read32, lane0, lane1, lane2, lane3, joinBytes_byteOf]

theorem write32_write32 (memory : ByteMemory) (address first second : Word) :
    (memory.write32 address first).write32 address second = memory.write32 address second := by
  funext place
  simp only [write32, write8, Function.update_apply]
  split_ifs <;> rfl

/-- A word is not affected by a store to a stretch of memory apart from it. -/
theorem read32_of_apart {start count : Nat} (address : Word)
    (same : Set.EqOn memory other (span start count)ᶜ) (room : address.toNat + 4 ≤ 2 ^ 32)
    (apart : address.toNat + 4 ≤ start ∨ start + count ≤ address.toNat) :
    memory.read32 address = other.read32 address := by
  refine read32_congr (fun place inside => same ?_) room
  simp only [Set.mem_compl_iff, mem_span] at inside ⊢
  omega

theorem byte_of_apart {start count : Nat} (address : Word)
    (same : Set.EqOn memory other (span start count)ᶜ)
    (apart : address.toNat < start ∨ start + count ≤ address.toNat) : memory address = other address := by
  apply same
  simp only [Set.mem_compl_iff, mem_span]
  omega

theorem fill_outside {value : Byte} {count : Nat} (room : address.toNat + count ≤ 2 ^ 32) :
    Set.EqOn (memory.fill address value count) memory (span address.toNat count)ᶜ := by
  induction count generalizing memory address with
  | zero => exact fun _ _ => rfl
  | succ count ih =>
      intro place outside
      simp only [Set.mem_compl_iff, mem_span] at outside
      by_cases last : count = 0
      · subst last
        exact write8_of_ne (by rintro rfl; omega)
      · have next : (address + 1).toNat = address.toNat + 1 := by bv_omega
        rw [fill, ih (by omega) (by simp only [Set.mem_compl_iff, mem_span]; omega)]
        exact write8_of_ne (by rintro rfl; omega)

theorem fill_inside {value : Byte} {count : Nat} (room : address.toNat + count ≤ 2 ^ 32)
    (inside : place ∈ span address.toNat count) : memory.fill address value count place = value := by
  induction count generalizing memory address with
  | zero => simp only [mem_span] at inside; omega
  | succ count ih =>
      simp only [mem_span] at inside
      rw [fill]
      by_cases last : count = 0
      · subst last
        have same : place = address := by bv_omega
        rw [fill, same, write8_self]
      · have next : (address + 1).toNat = address.toNat + 1 := by bv_omega
        by_cases first : place = address
        · subst first
          rw [fill_outside (by omega) (by simp only [Set.mem_compl_iff, mem_span]; omega), write8_self]
        · have apart : place.toNat ≠ address.toNat := fun same => first (BitVec.eq_of_toNat_eq same)
          exact ih (by omega) (by simp only [mem_span]; omega)

def writeWords (memory : ByteMemory) (address : Word) : List Word → ByteMemory
  | [] => memory
  | value :: rest => (memory.write32 address value).writeWords (address + 4) rest

theorem writeWords_outside {values : List Word} (room : address.toNat + 4 * values.length < 2 ^ 32) :
    Set.EqOn (memory.writeWords address values) memory (span address.toNat (4 * values.length))ᶜ := by
  induction values generalizing memory address with
  | nil => exact fun _ _ => rfl
  | cons value rest ih =>
      rw [List.length_cons] at room
      have next : (address + 4).toNat = address.toNat + 4 := by bv_omega
      intro place outside
      simp only [Set.mem_compl_iff, mem_span, List.length_cons] at outside
      rw [writeWords, ih (by omega) (by simp only [Set.mem_compl_iff, mem_span]; omega)]
      exact byte_of_apart place (write32_outside memory value (by omega)) (by omega)

theorem read32_writeWords {values : List Word} {index : Nat} (inside : index < values.length)
    (room : address.toNat + 4 * values.length < 2 ^ 32) :
    (memory.writeWords address values).read32 (address + BitVec.ofNat 32 (4 * index)) = values.get ⟨index, inside⟩ := by
  induction values generalizing memory address index with
  | nil => simp at inside
  | cons value rest ih =>
      rw [List.length_cons] at room inside
      have next : (address + 4).toNat = address.toNat + 4 := by bv_omega
      cases index with
      | zero =>
          have apart := @writeWords_outside (memory.write32 address value) (address + 4) rest (by omega)
          rw [Nat.mul_zero, BitVec.add_zero, writeWords,
            read32_of_apart address apart (by omega) (by omega), read32_write32]
          rfl
      | succ index =>
          have shift : address + BitVec.ofNat 32 (4 * (index + 1)) = address + 4 + BitVec.ofNat 32 (4 * index) := by
            bv_omega
          rw [writeWords, shift, ih (by omega) (by omega)]
          rfl

-- Fills of a whole page would otherwise be unfolded step by step.
attribute [irreducible] fill

end ByteMemory

end ScratchOs.Data
