import ScratchOs.Data.ByteMemory

namespace ScratchOs

open Data

/-! The descriptors of a 32-bit x86 interrupt table as the processor finds them in memory. -/

namespace Data.ByteMemory

def write16 (memory : ByteMemory) (address : Word) (value : BitVec 16) : ByteMemory :=
  (memory.write8 address (value.setWidth 8)).write8 (address + 1) ((value >>> 8).setWidth 8)

end Data.ByteMemory

namespace X86

structure Gate where
  offset : Word
  selector : BitVec 16
  flags : Byte
deriving DecidableEq, Repr

namespace Gate

def present (gate : Gate) : Bool := gate.flags.getLsbD 7

/-- The lower half of the offset comes first and the upper half last. Byte 4 is not used. -/
def read (memory : ByteMemory) (entry : Word) : Gate where
  offset := joinBytes (memory entry) (memory (entry + 1)) (memory (entry + 6)) (memory (entry + 7))
  selector := memory (entry + 3) ++ memory (entry + 2)
  flags := memory (entry + 5)

end Gate

/-- The register that `lidt` loads. -/
structure Idtr where
  limit : BitVec 16
  base : Word

def Idtr.entry (idtr : Idtr) (interrupt : Byte) : Word := idtr.base + BitVec.ofNat 32 (8 * interrupt.toNat)

/-- Nothing is found where the whole descriptor is not within the limit. -/
def Idtr.gate (idtr : Idtr) (memory : ByteMemory) (interrupt : Byte) : Option Gate :=
  if 8 * interrupt.toNat + 7 ≤ idtr.limit.toNat then some (Gate.read memory (idtr.entry interrupt)) else none

variable {memory other : ByteMemory} {entry address : Word} {value : BitVec 16}

theorem Gate.read_congr (same : Set.EqOn memory other (span entry.toNat 8)) (room : entry.toNat + 8 ≤ 2 ^ 32) :
    Gate.read memory entry = Gate.read other entry := by
  have lane : ∀ offset : Word, offset.toNat < 8 → memory (entry + offset) = other (entry + offset) := by
    intro offset inside
    apply same
    rw [mem_span, BitVec.toNat_add]
    omega
  have first : memory (entry + 0#32) = other (entry + 0#32) := lane 0 (by decide)
  rw [BitVec.add_zero] at first
  simp only [Gate.read, first, lane 1 (by decide), lane 2 (by decide), lane 3 (by decide), lane 5 (by decide),
    lane 6 (by decide), lane 7 (by decide)]

/-- The halves of an offset, stored apart, are joined again. -/
theorem joinBytes_halves (offset : Word) : joinBytes ((offset.setWidth 16).setWidth 8) ((offset.setWidth 16 >>> 8).setWidth 8)
    (((offset >>> 16).setWidth 16).setWidth 8) (((offset >>> 16).setWidth 16 >>> 8).setWidth 8) = offset := by
  conv_rhs => rw [← joinBytes_byteOf offset]
  congr 1 <;>
  · apply BitVec.eq_of_getLsbD_eq
    intro place inside
    simp only [byteOf, BitVec.getLsbD_setWidth, BitVec.getLsbD_extractLsb', BitVec.getLsbD_ushiftRight]
    simp [inside, show place < 16 by omega, show 8 + place < 16 by omega, ← Nat.add_assoc]

theorem append_bytes (value : BitVec 16) : ((value >>> 8).setWidth 8 : Byte) ++ (value.setWidth 8 : Byte) = value := by
  apply BitVec.eq_of_getLsbD_eq
  intro place inside
  rw [BitVec.getLsbD_append]
  by_cases low : place < 8
  · simp [low]
  · simp only [low, if_false, BitVec.getLsbD_setWidth, BitVec.getLsbD_ushiftRight]
    rw [show 8 + (place - 8) = place by omega, decide_eq_true (by omega), Bool.true_and]

/-- A mask of the bits that are kept anyway. -/
theorem setWidth_mask (value : Word) : ((value &&& 0xFFFF).setWidth 16 : BitVec 16) = value.setWidth 16 := by
  apply BitVec.eq_of_toNat_eq
  rw [BitVec.toNat_setWidth, BitVec.toNat_setWidth, BitVec.toNat_and]
  exact (congrArg (· % 2 ^ 16) (Nat.and_two_pow_sub_one_eq_mod value.toNat 16)).trans (Nat.mod_mod _ _)

/-- A descriptor written field by field. -/
theorem Gate.read_writeFields (memory : ByteMemory) (entry : Word) (low selector high : BitVec 16) (unused flags : Byte) :
    Gate.read (((((memory.write16 entry low).write16 (entry + 2) selector).write8 (entry + 4) unused).write8
      (entry + 5) flags).write16 (entry + 6) high) entry =
      ⟨joinBytes (low.setWidth 8) ((low >>> 8).setWidth 8) (high.setWidth 8) ((high >>> 8).setWidth 8), selector, flags⟩ := by
  simp only [Gate.read, ByteMemory.write16, Gate.mk.injEq]
  -- Byte `n` is the one that the `n`th store has put there.
  refine ⟨?_, ?_, ?_⟩
  · congr 1
    · iterate 7 rw [ByteMemory.write8_of_ne (by bv_omega)]
      rw [ByteMemory.write8_self]
    · iterate 6 rw [ByteMemory.write8_of_ne (by bv_omega)]
      rw [ByteMemory.write8_self]
    · rw [ByteMemory.write8_of_ne (by bv_omega), ByteMemory.write8_self]
    · rw [show entry + 7 = entry + 6 + 1 by bv_omega, ByteMemory.write8_self]
  · rw [← append_bytes selector]
    congr 1
    · rw [show entry + 3 = entry + 2 + 1 by bv_omega]
      iterate 4 rw [ByteMemory.write8_of_ne (by bv_omega)]
      rw [ByteMemory.write8_self, append_bytes]
    · iterate 5 rw [ByteMemory.write8_of_ne (by bv_omega)]
      rw [ByteMemory.write8_self, append_bytes]
  · iterate 2 rw [ByteMemory.write8_of_ne (by bv_omega)]
    rw [ByteMemory.write8_self]

theorem Gate.read_writeFlags (memory : ByteMemory) (entry : Word) (flags : Byte) :
    Gate.read (memory.write8 (entry + 5) flags) entry = { Gate.read memory entry with flags := flags } := by
  simp only [Gate.read, Gate.mk.injEq]
  refine ⟨?_, ?_, ByteMemory.write8_self ..⟩
  · congr 1 <;> rw [ByteMemory.write8_of_ne (by bv_omega)]
  · congr 1 <;> rw [ByteMemory.write8_of_ne (by bv_omega)]

end X86

end ScratchOs
