import ScratchOs.Data.ByteMemory

namespace ScratchOs.Data.ByteMemory

/-! Words on a stack that grows downwards. Addresses may wrap anywhere: of two
places only their distance matters. -/

variable {memory other : ByteMemory} {address place value : Word} {values back : List Word}

/-- The words stand one behind another, the first at `address`. -/
def HoldsWords (memory : ByteMemory) (address : Word) (values : List Word) : Prop :=
  ∀ index value, values[index]? = some value → memory.read32 (address + BitVec.ofNat 32 (4 * index)) = value

theorem write32_distant (lower : 4 ≤ (place - address).toNat) : memory.write32 address value place = memory place := by
  rw [write32, write8_of_ne (by bv_omega), write8_of_ne (by bv_omega), write8_of_ne (by bv_omega),
    write8_of_ne (by bv_omega)]

/-- A word is not affected by a store to a word apart from it, around the address space. -/
theorem read32_write32_distant (lower : 4 ≤ (place - address).toNat) (upper : (place - address).toNat ≤ 2 ^ 32 - 4) :
    (memory.write32 address value).read32 place = memory.read32 place := by
  rw [read32, read32, write32_distant lower, write32_distant (by bv_omega), write32_distant (by bv_omega),
    write32_distant (by bv_omega)]

namespace HoldsWords

theorem nil (memory : ByteMemory) (address : Word) : memory.HoldsWords address [] := by
  intro index value found
  cases found

theorem push (holds : memory.HoldsWords address values) (few : values.length < 2 ^ 30 - 1) (value : Word) :
    (memory.write32 (address - 4) value).HoldsWords (address - 4) (value :: values) := by
  intro index word found
  cases index with
  | zero =>
      rw [List.getElem?_cons_zero, Option.some_inj] at found
      rw [Nat.mul_zero, BitVec.add_zero, read32_write32, found]
  | succ index =>
      rw [List.getElem?_cons_succ] at found
      have inside : index < values.length := (List.getElem?_eq_some_iff.mp found).1
      have shift : address - 4 + BitVec.ofNat 32 (4 * (index + 1)) = address + BitVec.ofNat 32 (4 * index) := by bv_omega
      have distance : address + BitVec.ofNat 32 (4 * index) - (address - 4) = BitVec.ofNat 32 (4 * (index + 1)) := by
        bv_omega
      have size : (BitVec.ofNat 32 (4 * (index + 1))).toNat = 4 * (index + 1) := by
        rw [BitVec.toNat_ofNat, Nat.mod_eq_of_lt (by omega)]
      rw [shift, read32_write32_distant (by rw [distance, size]; omega) (by rw [distance, size]; omega)]
      exact holds index word found

theorem drop (holds : memory.HoldsWords address (values ++ back)) :
    memory.HoldsWords (address + BitVec.ofNat 32 (4 * values.length)) back := by
  intro index value found
  have shift : address + BitVec.ofNat 32 (4 * values.length) + BitVec.ofNat 32 (4 * index) =
      address + BitVec.ofNat 32 (4 * (values.length + index)) := by bv_omega
  rw [shift]
  refine holds (values.length + index) value ?_
  rw [List.getElem?_append_right (Nat.le_add_right _ _), Nat.add_sub_cancel_left]
  exact found

/-- The words stay as long as their bytes do. -/
theorem congr (holds : memory.HoldsWords address values)
    (same : ∀ offset < 4 * values.length, other (address + BitVec.ofNat 32 offset) = memory (address + BitVec.ofNat 32 offset)) :
    other.HoldsWords address values := by
  intro index value found
  have inside : index < values.length := (List.getElem?_eq_some_iff.mp found).1
  have lane : ∀ byte < 4, other (address + BitVec.ofNat 32 (4 * index) + BitVec.ofNat 32 byte) =
      memory (address + BitVec.ofNat 32 (4 * index) + BitVec.ofNat 32 byte) := by
    intro byte small
    rw [BitVec.add_assoc, ← BitVec.ofNat_add]
    exact same _ (by omega)
  rw [← holds index value found, read32, read32]
  congr 1
  · simpa using lane 0 (by decide)
  · exact lane 1 (by decide)
  · exact lane 2 (by decide)
  · exact lane 3 (by decide)

end HoldsWords

end ScratchOs.Data.ByteMemory
