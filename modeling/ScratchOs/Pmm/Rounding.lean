import ScratchOs.Pmm.Bitmap

namespace ScratchOs.Pmm

open Data

/-! `mark_physical_memory_region_used` against the blocks that have a byte of the region. -/

/-- Some byte of the block is one of the region's. -/
def SharesByte (base size : Word) (block : Nat) : Prop :=
  ∃ address, base.toNat ≤ address ∧ address < base.toNat + size.toNat ∧ address / bitmapBlockSize = block

/-- The block of the region's last byte. -/
def lastBlock (base size : Word) : Nat := (base.toNat + size.toNat - 1) / bitmapBlockSize

/-- What is promised of reserving a region: all of its blocks are used afterwards,
and at most one block behind it has changed. -/
structure RoundsOutward (pmm : Pmm) (base size : Word) : Prop where
  covers : ∀ block, SharesByte base size block → (pmm.markPhysicalMemoryRegionUsed base size).isBlockUsed block = true
  bounded : ∀ block, (pmm.markPhysicalMemoryRegionUsed base size).isBlockUsed block ≠ pmm.isBlockUsed block →
    base.toNat / bitmapBlockSize ≤ block ∧ block ≤ lastBlock base size + 1

variable {pmm : Pmm} {base size : Word} {block : Nat}

theorem sharesByte_iff (nonempty : 0 < size.toNat) :
    SharesByte base size block ↔ base.toNat / bitmapBlockSize ≤ block ∧ block ≤ lastBlock base size := by
  unfold SharesByte lastBlock bitmapBlockSize
  constructor
  · rintro ⟨address, lower, upper, rfl⟩
    exact ⟨Nat.div_le_div_right lower, Nat.div_le_div_right (by omega)⟩
  · rintro ⟨lower, upper⟩
    by_cases first : block = base.toNat / 4096
    · exact ⟨base.toNat, Nat.le_refl _, by omega, first.symm⟩
    · exact ⟨block * 4096, by omega, by omega, Nat.mul_div_cancel _ (by decide)⟩

/-- The loop stops one block early when the two remainders add up to more than a block. -/
theorem mem_regionBlocks_iff (nonempty : 0 < size.toNat) :
    lastBlock base size ∈ regionBlocks base size ↔
      base.toNat % bitmapBlockSize + size.toNat % bitmapBlockSize ≤ bitmapBlockSize := by
  simp only [regionBlocks, lastBlock, calculateNumBlocks, bitmapBlockSize, Set.mem_ofPred_eq]
  omega

/-- What the loop marks lies between the region's first block and the one behind its last. -/
theorem regionBlocks_bounded (nonempty : 0 < size.toNat) (inside : block ∈ regionBlocks base size) :
    base.toNat / bitmapBlockSize ≤ block ∧ block ≤ lastBlock base size + 1 := by
  simp only [regionBlocks, calculateNumBlocks, Set.mem_ofPred_eq] at inside
  refine ⟨inside.1, ?_⟩
  have upper := inside.2
  unfold lastBlock bitmapBlockSize at *
  omega

/-- All blocks of the region but its last one are marked in any case. -/
theorem mem_regionBlocks_of_lt (lower : base.toNat / bitmapBlockSize ≤ block) (before : block < lastBlock base size) :
    block ∈ regionBlocks base size := by
  refine ⟨lower, ?_⟩
  unfold lastBlock calculateNumBlocks bitmapBlockSize at *
  omega

/-- The blocks are counted from the size alone, although the region begins inside
of its first block: the last block is left out when the offsets of the base and
of the size within a block add up to more than a block. -/
theorem roundsOutward_iff (pmm : Pmm) (base size : Word) (nonempty : 0 < size.toNat) :
    RoundsOutward pmm base size ↔
      base.toNat % bitmapBlockSize + size.toNat % bitmapBlockSize ≤ bitmapBlockSize ∨
      pmm.isBlockUsed (lastBlock base size) = true := by
  have last : SharesByte base size (lastBlock base size) := by
    rw [sharesByte_iff nonempty]
    exact ⟨Nat.div_le_div_right (by omega), Nat.le_refl _⟩
  constructor
  · intro rounds
    have used := rounds.covers _ last
    rw [isBlockUsed_regionUsed, Bool.or_eq_true, decide_eq_true_eq] at used
    exact used.imp_left (mem_regionBlocks_iff nonempty).mp
  · intro reached
    refine ⟨fun block shares => ?_, fun block changed => regionBlocks_bounded nonempty ?_⟩
    · obtain ⟨lower, upper⟩ := (sharesByte_iff nonempty).mp shares
      rw [isBlockUsed_regionUsed, Bool.or_eq_true, decide_eq_true_eq]
      rcases Nat.lt_or_eq_of_le upper with before | rfl
      · exact .inl (mem_regionBlocks_of_lt lower before)
      · exact reached.imp_left (mem_regionBlocks_iff nonempty).mpr
    · by_contra outside
      rw [isBlockUsed_regionUsed, decide_eq_false outside, Bool.false_or] at changed
      exact changed rfl

/-- Sixteen free blocks. -/
def freeBitmap : Pmm := ⟨fun _ => 0, 16, by decide⟩

theorem roundsOutward_iff_page : RoundsOutward freeBitmap 0x1800 0x1000 :=
  (roundsOutward_iff freeBitmap 0x1800 0x1000 (by decide)).mpr (.inl (by decide))

/-- Two bytes on both sides of a block's end: the second one stays free. -/
theorem twoBytes_halfMarked : ¬ ∀ (pmm : Pmm) (base size : Word), 0 < size.toNat → base.toNat + size.toNat ≤ 2 ^ 32 →
    RoundsOutward pmm base size := by
  intro always
  have used := (always freeBitmap 0xfff 2 (by decide) (by decide)).covers 1 ⟨4096, by decide, by decide, rfl⟩
  revert used
  decide

end ScratchOs.Pmm
