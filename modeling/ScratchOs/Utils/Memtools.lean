import ScratchOs.Data.ByteMemory

namespace ScratchOs

open Data

/-! `memcpy` of `utils/memtools.c`, which copies byte after byte from the front,
whether the two areas overlap or not. -/

namespace Memtools

def memcpy (dest src : Word) : Nat → ByteMemory → ByteMemory
  | 0, memory => memory
  | n + 1, memory => memcpy (dest + 1) (src + 1) n (memory.write8 dest (memory src))

/-- Where the byte comes from that the loop leaves at `dest + offset`. From a
destination that begins within the source the loop reads what it has written. -/
def copiedFrom (dest src : Word) (offset : Nat) : Nat :=
  if src.toNat < dest.toNat then src.toNat + offset % (dest.toNat - src.toNat) else src.toNat + offset

variable {dest src place : Word} {count : Nat} {memory : ByteMemory}

/-- The last round of the loop. -/
theorem memcpy_succ (dest src : Word) (count : Nat) (memory : ByteMemory) : memcpy dest src (count + 1) memory =
    (memcpy dest src count memory).write8 (dest + BitVec.ofNat 32 count)
      (memcpy dest src count memory (src + BitVec.ofNat 32 count)) := by
  induction count generalizing dest src memory with
  | zero =>
      have zero : BitVec.ofNat 32 0 = 0#32 := rfl
      rw [zero, BitVec.add_zero, BitVec.add_zero]
      rfl
  | succ count ih =>
      have next : ∀ start : Word, start + 1 + BitVec.ofNat 32 count = start + BitVec.ofNat 32 (count + 1) := by
        intro start
        rw [BitVec.add_assoc]
        congr 1
        bv_omega
      rw [memcpy, ih, next, next]
      rfl

/-- Every byte that `memcpy` leaves, as long as neither area wraps around. -/
theorem memcpy_apply (destRoom : dest.toNat + count ≤ 2 ^ 32) (srcRoom : src.toNat + count ≤ 2 ^ 32) (place : Word) :
    memcpy dest src count memory place =
      if dest.toNat ≤ place.toNat ∧ place.toNat < dest.toNat + count
      then memory (BitVec.ofNat 32 (copiedFrom dest src (place.toNat - dest.toNat))) else memory place := by
  induction count generalizing place with
  | zero =>
      rw [if_neg (by omega)]
      rfl
  | succ count ih =>
      have before := ih (by omega) (by omega)
      have target : (dest + BitVec.ofNat 32 count).toNat = dest.toNat + count := by
        rw [BitVec.toNat_add, BitVec.toNat_ofNat]
        omega
      have source : (src + BitVec.ofNat 32 count).toNat = src.toNat + count := by
        rw [BitVec.toNat_add, BitVec.toNat_ofNat]
        omega
      rw [memcpy_succ]
      by_cases here : place = dest + BitVec.ofNat 32 count
      · rw [here, ByteMemory.write8_self, before, target, source, Nat.add_sub_cancel_left,
          if_pos (show dest.toNat ≤ dest.toNat + count ∧ _ by omega)]
        by_cases written : dest.toNat ≤ src.toNat + count ∧ src.toNat + count < dest.toNat + count
        · -- The byte read is one of those the loop has put there.
          have behind : src.toNat < dest.toNat := by omega
          rw [if_pos written, copiedFrom, copiedFrom, if_pos behind, if_pos behind]
          have turn : src.toNat + count - dest.toNat + (dest.toNat - src.toNat) = count := by omega
          rw [← Nat.add_mod_right (src.toNat + count - dest.toNat), turn]
        · rw [if_neg written, copiedFrom]
          split_ifs with behind
          · rw [Nat.mod_eq_of_lt (by omega), ← source, BitVec.ofNat_toNat, BitVec.setWidth_eq]
          · rw [← source, BitVec.ofNat_toNat, BitVec.setWidth_eq]
      · have elsewhere : place.toNat ≠ dest.toNat + count := fun same =>
          here (BitVec.eq_of_toNat_eq (same.trans target.symm))
        rw [ByteMemory.write8_of_ne here, before]
        by_cases inside : dest.toNat ≤ place.toNat ∧ place.toNat < dest.toNat + count
        · rw [if_pos inside, if_pos (by omega)]
        · rw [if_neg inside, if_neg (by omega)]

/-- One byte ahead of the source, the first byte is spread over the area. -/
theorem memcpy_apply_spreads : memcpy 1 0 4 (fun place => place.setWidth 8) 4 = 0 := by
  rw [memcpy_apply (by decide) (by decide)]
  decide

/-- A move, unless the destination begins within the source and behind its start. -/
theorem memcpy_apart (destRoom : dest.toNat + count ≤ 2 ^ 32) (srcRoom : src.toNat + count ≤ 2 ^ 32)
    (apart : dest.toNat ≤ src.toNat ∨ src.toNat + count ≤ dest.toNat) {offset : Nat} (inside : offset < count) :
    memcpy dest src count memory (dest + BitVec.ofNat 32 offset) = memory (src + BitVec.ofNat 32 offset) := by
  have target : (dest + BitVec.ofNat 32 offset).toNat = dest.toNat + offset := by
    rw [BitVec.toNat_add, BitVec.toNat_ofNat]
    omega
  have source : (src + BitVec.ofNat 32 offset).toNat = src.toNat + offset := by
    rw [BitVec.toNat_add, BitVec.toNat_ofNat]
    omega
  rw [memcpy_apply destRoom srcRoom, target, if_pos (by omega), Nat.add_sub_cancel_left, copiedFrom]
  split_ifs with behind
  · rw [Nat.mod_eq_of_lt (by omega), ← source, BitVec.ofNat_toNat, BitVec.setWidth_eq]
  · rw [← source, BitVec.ofNat_toNat, BitVec.setWidth_eq]

end Memtools

end ScratchOs
