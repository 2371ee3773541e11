import ScratchOs.Pmm.Init

namespace ScratchOs.Pmm

open Data

/-! Block 0, whose address is `NULL`. -/

inductive Call where
  | allocBlock
  | allocBlocks (size : Word)
  | freeBlock (addr : Word)
  | freeBlocks (addr size : Word)

def Call.run : Call → Pmm → Pmm
  | .allocBlock, pmm => pmm.allocBlock.2
  | .allocBlocks size, pmm => (pmm.allocBlocks size).2
  | .freeBlock addr, pmm => pmm.freeBlock addr
  | .freeBlocks addr size, pmm => pmm.freeBlocks addr size

/-- The states after any calls that each meet `condition`. -/
inductive ReachedBy (condition : Call → Prop) (start : Pmm) : Pmm → Prop
  | start : ReachedBy condition start start
  | call {pmm : Pmm} (call : Call) : ReachedBy condition start pmm → condition call →
      ReachedBy condition start (call.run pmm)

/-- `free_block` is not asked to free the block at `NULL`. -/
def Call.SparesNull : Call → Prop
  | .freeBlock addr => 4096 ≤ addr.toNat
  | _ => True

/-- Block 0 is never handed out, so that `NULL` means that nothing is left. -/
structure Unambiguous (pmm : Pmm) : Prop where
  reserved : pmm.isBlockUsed 0 = true
  exhausted : pmm.allocBlock.1 = 0 ↔ ∀ block < pmm.gBitmapSize, pmm.isBlockUsed block = true

/-- What makes initialisation mark block 0: a bitmap of at least one block, a
bit that was there before, a usable entry, or a region that reaches it. -/
def ReservesNull (memory : WordBits 32) (entries : List E820MemoryMapEntry) (bitmapAddr : Word)
    (reservedRegions : List MemoryRegion) : Prop :=
  0 < calculateBitmapSize entries ∨ memory.test 0 = true ∨ (∃ entry ∈ entries, entry.Usable ∨ 0 ∈ entry.marked) ∨
    0 ∈ bitmapMarked entries bitmapAddr ∨ ∃ region ∈ reservedRegions, 0 ∈ region.marked

variable {pmm start : Pmm} {memory : WordBits 32} {entries : List E820MemoryMapEntry} {bitmapAddr : Word}
  {reservedRegions : List MemoryRegion}

theorem blank_zero_iff : (blank memory entries).isBlockUsed 0 = true ↔
    0 < calculateBitmapSize entries ∨ memory.test 0 = true := by
  by_cases some : 0 < calculateBitmapSize entries
  · exact iff_of_true (isBlockUsed_blank memory some) (.inl some)
  · have read := @WordBits.test_fill 32 4 (by decide) (by decide) memory 0xff#8 0 (calculateBitmapSize entries) 0
    rw [if_neg (by omega)] at read
    rw [isBlockUsed, blank, read, or_iff_right some]

theorem markEntry_zero_iff {entry : E820MemoryMapEntry} : (pmm.markEntry entry).isBlockUsed 0 = true ↔
    pmm.isBlockUsed 0 = true ∨ entry.Usable ∨ 0 ∈ entry.marked := by
  unfold markEntry
  by_cases usable : entry.Usable
  · rw [if_pos usable, isBlockUsed_regionFree, decide_eq_true rfl, Bool.true_or]
    exact iff_of_true rfl (.inr (.inl usable))
  · rw [if_neg usable, isBlockUsed_regionUsed, Bool.or_eq_true, decide_eq_true_eq, or_comm, or_iff_right usable]
    rfl

theorem foldl_markEntry_zero_iff : (entries.foldl markEntry pmm).isBlockUsed 0 = true ↔
    pmm.isBlockUsed 0 = true ∨ ∃ entry ∈ entries, entry.Usable ∨ 0 ∈ entry.marked := by
  induction entries generalizing pmm with
  | nil => simp
  | cons entry rest ih =>
      simp only [List.foldl_cons, ih, markEntry_zero_iff, List.mem_cons, exists_eq_or_imp, or_assoc]

theorem foldl_markReserved_zero_iff : (reservedRegions.foldl markReserved pmm).isBlockUsed 0 = true ↔
    pmm.isBlockUsed 0 = true ∨ ∃ region ∈ reservedRegions, 0 ∈ region.marked := by
  have free := @foldl_markReserved_free 0 pmm reservedRegions
  rw [← Bool.not_eq_true, ← Bool.not_eq_true] at free
  rw [← not_iff_not, free]
  push Not
  rfl

theorem initialize_zero_iff :
    (initializePhysicalMemoryManager memory entries bitmapAddr reservedRegions).isBlockUsed 0 = true ↔
      ReservesNull memory entries bitmapAddr reservedRegions := by
  rw [initializePhysicalMemoryManager, foldl_markReserved_zero_iff, isBlockUsed_regionUsed, Bool.or_eq_true,
    decide_eq_true_eq, foldl_markEntry_zero_iff, blank_zero_iff, gBitmapSize_foldl_markEntry, ReservesNull]
  change ((0 ∈ bitmapMarked entries bitmapAddr ∨ _) ∨ _) ↔ _
  rw [or_assoc, or_left_comm, or_assoc, or_assoc]

/-! The calls. -/

theorem Unambiguous.of_reserved (reserved : pmm.isBlockUsed 0 = true) : Unambiguous pmm where
  reserved := reserved
  exhausted := by
    constructor
    · intro null block below
      by_contra unused
      exact allocBlock_ne_zero reserved ⟨block, below, by simpa using unused⟩ null
    · intro full
      by_contra nonnull
      obtain ⟨block, below, unused⟩ := allocBlock_nonnull nonnull
      simp [full block below] at unused

theorem allocBlocks_used {size : Word} {block : Nat} (used : pmm.isBlockUsed block = true) :
    (pmm.allocBlocks size).2.isBlockUsed block = true := by
  rcases pmm.allocBlocks_cases size with result | ⟨first, _, _, result⟩
  · rwa [result]
  · rw [result, isBlockUsed_regionUsed, used, Bool.or_true]

theorem freeBlock_zero_iff {addr : Word} (reserved : pmm.isBlockUsed 0 = true) :
    (pmm.freeBlock addr).isBlockUsed 0 = true ↔ 4096 ≤ addr.toNat := by
  rw [freeBlock, isBlockUsed_markBlockFree, reserved, Bool.and_true, Bool.not_eq_true', decide_eq_false_iff_not,
    bitmapBlockSize]
  omega

theorem Call.run_reserved {call : Call} (spares : call.SparesNull) (reserved : pmm.isBlockUsed 0 = true) :
    (call.run pmm).isBlockUsed 0 = true := by
  cases call with
  | allocBlock => exact allocBlock_used reserved
  | allocBlocks size => exact allocBlocks_used reserved
  | freeBlock addr => exact (freeBlock_zero_iff reserved).mpr spares
  | freeBlocks addr size =>
      change (pmm.markPhysicalMemoryRegionFree addr size).isBlockUsed 0 = true
      rw [isBlockUsed_regionFree, decide_eq_true rfl, Bool.true_or]

theorem ReachedBy.reserved (reserved : start.isBlockUsed 0 = true) (reached : ReachedBy Call.SparesNull start pmm) :
    pmm.isBlockUsed 0 = true := by
  induction reached with
  | start => exact reserved
  | call call _ spares ih => exact call.run_reserved spares ih

/-- For less than a page the two ways to free differ in what they do to block 0. -/
theorem freeBlock_eq_freeBlocks_iff {addr size : Word} (reserved : pmm.isBlockUsed 0 = true)
    (small : size.toNat < 4096) : pmm.freeBlock addr = pmm.freeBlocks addr size ↔ 4096 ≤ addr.toNat := by
  have one : calculateNumBlocks size = 1 := by
    rw [calculateNumBlocks, bitmapBlockSize]
    omega
  have only : ∀ block, block ∈ regionBlocks addr size ↔ block = addr.toNat / bitmapBlockSize := by
    intro block
    simp only [regionBlocks, one, Set.mem_ofPred_eq]
    omega
  have after : ∀ block, (pmm.freeBlocks addr size).isBlockUsed block =
      (decide (block = 0) || (!decide (block = addr.toNat / bitmapBlockSize) && pmm.isBlockUsed block)) := by
    intro block
    rw [freeBlocks, isBlockUsed_regionFree]
    simp only [only]
  constructor
  · intro same
    rw [← freeBlock_zero_iff reserved, same, after, decide_eq_true rfl, Bool.true_or]
  · intro spares
    have words : (pmm.freeBlock addr).words = (pmm.freeBlocks addr size).words := by
      apply WordBits.ext_test (by decide)
      intro block
      have kept := (freeBlock_zero_iff reserved).mpr spares
      change (pmm.freeBlock addr).isBlockUsed block = (pmm.freeBlocks addr size).isBlockUsed block
      rw [after]
      by_cases zero : block = 0
      · rw [zero, kept, decide_eq_true rfl, Bool.true_or]
      · rw [freeBlock, isBlockUsed_markBlockFree, decide_eq_false zero, Bool.false_or]
    exact congrArg (fun words => ({ pmm with words := words } : Pmm)) words

/-- `free_block` does not put the reservation of block 0 back, as the other
operations do. In a run in which it is never given an address on that block
`NULL` stays unambiguous; and it agrees with `free_blocks` on one block exactly
for the other addresses. -/
theorem null_unambiguous (memory : WordBits 32) (entries : List E820MemoryMapEntry) (bitmapAddr : Word)
    (reservedRegions : List MemoryRegion) (reserves : ReservesNull memory entries bitmapAddr reservedRegions)
    (pmm : Pmm)
    (reached : ReachedBy Call.SparesNull
      (initializePhysicalMemoryManager memory entries bitmapAddr reservedRegions) pmm) :
    Unambiguous pmm ∧
      ∀ addr size : Word, size.toNat < 4096 →
        (pmm.freeBlock addr = pmm.freeBlocks addr size ↔ 4096 ≤ addr.toNat) ∧
        (Unambiguous (pmm.freeBlock addr) ↔ 4096 ≤ addr.toNat) := by
  have reserved := reached.reserved (initialize_zero_iff.mpr reserves)
  refine ⟨.of_reserved reserved, fun addr size small => ⟨freeBlock_eq_freeBlocks_iff reserved small, ?_⟩⟩
  rw [← freeBlock_zero_iff reserved]
  exact ⟨Unambiguous.reserved, Unambiguous.of_reserved⟩

theorem flatMap128_reservesNull : ReservesNull (fun _ => 0) flatMap128 0xC0010000 kernelReservedRegions :=
  .inl (by decide)

/-- One `free_block` of `NULL` after the boot, and block 0 is there to be taken. -/
theorem freeNull_hands_out_null : ¬ ∀ pmm,
    ReachedBy (fun _ => True)
      (initializePhysicalMemoryManager (fun _ => 0) flatMap128 0xC0010000 kernelReservedRegions) pmm →
      Unambiguous pmm := by
  intro always
  have reserved := (initialize_zero_iff.mpr flatMap128_reservesNull)
  have kept := (always _ (.call (.freeBlock 0) .start trivial)).reserved
  have high := (freeBlock_zero_iff reserved).mp kept
  exact absurd high (by decide)

theorem null_unambiguous_flatMap128 :
    Unambiguous ((initializePhysicalMemoryManager (fun _ => 0) flatMap128 0xC0010000 kernelReservedRegions).freeBlock
      0x400000) :=
  (null_unambiguous (fun _ => 0) flatMap128 0xC0010000 kernelReservedRegions flatMap128_reservesNull _
    (.call (.freeBlock 0x400000) .start (show 4096 ≤ (0x400000 : Word).toNat by decide))).1

end ScratchOs.Pmm
