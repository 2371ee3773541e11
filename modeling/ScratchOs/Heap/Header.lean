import ScratchOs.Heap.Kmalloc

namespace ScratchOs.Heap

open Data

@[ext]
structure Header where
  next : Word
  size : Word
  free : Bool
  canary : Word

def header (memory : ByteMemory) (block : Word) : Header where
  next := memory.read32 block
  size := memory.read32 (block + 4)
  free := memory (block + 8) != 0
  canary := memory.read32 (block + 12)

abbrev headerSpan (block : Word) : Set Word := recordSpan block

variable {memory other : ByteMemory} {block value : Word}

theorem header_congr (room : block.toNat + 16 ≤ 2 ^ 32)
    (same : Set.EqOn memory other (headerSpan block)) : header memory block = header other block := by
  have next : memory.read32 block = other.read32 block :=
    ByteMemory.read32_congr (same.mono (by intro x; simp only [mem_span]; omega)) (by omega)
  have size : memory.read32 (block + 4) = other.read32 (block + 4) :=
    ByteMemory.read32_congr (same.mono (span_subset_recordSpan room (by decide))) (by bv_omega)
  have canary : memory.read32 (block + 12) = other.read32 (block + 12) :=
    ByteMemory.read32_congr (same.mono (span_subset_recordSpan room (by decide))) (by bv_omega)
  have free : memory (block + 8) = other (block + 8) := same (by simp only [mem_span]; bv_omega)
  simp only [header, next, size, canary, free]

theorem header_write_next (room : block.toNat + 16 ≤ 2 ^ 32) :
    header (memory.write32 block value) block = { header memory block with next := value } := by
  have same := memory.write32_outside value (show block.toNat + 4 ≤ 2 ^ 32 by omega)
  have size := ByteMemory.read32_of_apart (block + 4) same (by bv_omega) (by bv_omega)
  have canary := ByteMemory.read32_of_apart (block + 12) same (by bv_omega) (by bv_omega)
  have free := ByteMemory.byte_of_apart (block + 8) same (by bv_omega)
  simp only [header, size, canary, free, ByteMemory.read32_write32]

theorem header_write_size (room : block.toNat + 16 ≤ 2 ^ 32) :
    header (memory.write32 (block + 4) value) block = { header memory block with size := value } := by
  have same := memory.write32_outside value (show (block + 4).toNat + 4 ≤ 2 ^ 32 by bv_omega)
  have next := ByteMemory.read32_of_apart block same (by omega) (by bv_omega)
  have canary := ByteMemory.read32_of_apart (block + 12) same (by bv_omega) (by bv_omega)
  have free := ByteMemory.byte_of_apart (block + 8) same (by bv_omega)
  simp only [header, next, canary, free, ByteMemory.read32_write32]

theorem header_write_canary (room : block.toNat + 16 ≤ 2 ^ 32) :
    header (memory.write32 (block + 12) value) block = { header memory block with canary := value } := by
  have same := memory.write32_outside value (show (block + 12).toNat + 4 ≤ 2 ^ 32 by bv_omega)
  have next := ByteMemory.read32_of_apart block same (by omega) (by bv_omega)
  have size := ByteMemory.read32_of_apart (block + 4) same (by bv_omega) (by bv_omega)
  have free := ByteMemory.byte_of_apart (block + 8) same (by bv_omega)
  simp only [header, next, size, free, ByteMemory.read32_write32]

theorem header_write_free (room : block.toNat + 16 ≤ 2 ^ 32) (flag : Bool) :
    header (memory.write8 (block + 8) (if flag then 1 else 0)) block =
      { header memory block with free := flag } := by
  have same := memory.write8_outside (block + 8) (if flag then 1 else 0)
  have next := ByteMemory.read32_of_apart block same (by omega) (by bv_omega)
  have size := ByteMemory.read32_of_apart (block + 4) same (by bv_omega) (by bv_omega)
  have canary := ByteMemory.read32_of_apart (block + 12) same (by bv_omega) (by bv_omega)
  have read : ((if flag then 1 else 0 : Byte) != 0) = flag := by cases flag <;> rfl
  simp only [header, next, size, canary, ByteMemory.write8_self, read]

/-! Header accesses on a platform that can be read as flat memory. -/

variable {σ : Type} {platform : Platform σ} (view : FlatView platform) {world after : σ}

abbrev HeaderMapped (world : σ) (block : Word) : Prop := RecordMapped view world block

/-- `after` is `world` with the header of `block` replaced by `value`. -/
abbrev HeaderStored (world after : σ) (block : Word) (value : Header) : Prop :=
  RecordStored view header world after block value

variable {view}

theorem HeaderMapped.loadNext (ready : HeaderMapped view world block) :
    loadNext platform block world = some (header (view.bytes world) block).next := by
  have loaded := ready.load32 (show (0#32).toNat + 4 ≤ 16 by decide)
  rwa [BitVec.add_zero] at loaded

theorem HeaderMapped.loadSize (ready : HeaderMapped view world block) :
    loadSize platform block world = some (header (view.bytes world) block).size :=
  ready.load32 (by decide)

theorem HeaderMapped.loadCanary (ready : HeaderMapped view world block) :
    loadCanary platform block world = some (header (view.bytes world) block).canary :=
  ready.load32 (by decide)

theorem HeaderMapped.loadFree (ready : HeaderMapped view world block) :
    loadFree platform block world = some (header (view.bytes world) block).free := by
  rw [Heap.loadFree, ready.load8 (by decide)]
  rfl

theorem HeaderMapped.persist (ready : HeaderMapped view world block) {stored : Word} {value : Header}
    (store : HeaderStored view world after stored value) : HeaderMapped view after block :=
  RecordMapped.persist ready store

theorem HeaderMapped.storeNext (ready : HeaderMapped view world block) (value : Word) :
    ∃ after, storeNext platform block value world = some after ∧
      HeaderStored view world after block { header (view.bytes world) block with next := value } := by
  have stores := @RecordMapped.store32 _ _ _ _ header _ _ _ ready value (show (0#32).toNat + 4 ≤ 16 by decide)
  rwa [BitVec.add_zero, header_write_next ready.room] at stores

theorem HeaderMapped.storeSize (ready : HeaderMapped view world block) (value : Word) :
    ∃ after, storeSize platform block value world = some after ∧
      HeaderStored view world after block { header (view.bytes world) block with size := value } := by
  rw [← header_write_size ready.room]
  exact ready.store32 value (by decide)

theorem HeaderMapped.storeCanary (ready : HeaderMapped view world block) (value : Word) :
    ∃ after, storeCanary platform block value world = some after ∧
      HeaderStored view world after block { header (view.bytes world) block with canary := value } := by
  rw [← header_write_canary ready.room]
  exact ready.store32 value (by decide)

theorem HeaderMapped.storeFree (ready : HeaderMapped view world block) (flag : Bool) :
    ∃ after, storeFree platform block flag world = some after ∧
      HeaderStored view world after block { header (view.bytes world) block with free := flag } := by
  rw [← header_write_free ready.room]
  exact ready.store8 _ (by decide)

end ScratchOs.Heap
