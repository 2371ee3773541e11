import ScratchOs.Pmm.Ownership

namespace ScratchOs.Pmm

open Data

/-! `alloc_blocks` against the runs of free blocks there are. -/

/-- A run that can hold a request: below the end of the bitmap and free. -/
def Fits (pmm : Pmm) (size : Word) (start : Nat) : Prop :=
  start + calculateNumBlocks size ≤ pmm.gBitmapSize ∧ pmm.FreeRun start (calculateNumBlocks size)

/-- What a client expects of `alloc_blocks`: a pointer whenever some run fits,
to the lowest one, whose blocks are then the only ones marked; else no change. -/
structure AllocatesExactly (pmm : Pmm) (size : Word) : Prop where
  granted : (pmm.allocBlocks size).1 ≠ 0 ↔ ∃ start, Fits pmm size start
  lowest : (pmm.allocBlocks size).1 ≠ 0 → ∃ start, Fits pmm size start ∧
    (∀ lower < start, ¬ Fits pmm size lower) ∧ (pmm.allocBlocks size).1 = blockAddress start ∧
    (pmm.allocBlocks size).2.gBitmapSize = pmm.gBitmapSize ∧
    ∀ block, (pmm.allocBlocks size).2.isBlockUsed block = true ↔
      (start ≤ block ∧ block < start + calculateNumBlocks size) ∨ pmm.isBlockUsed block = true
  refused : (pmm.allocBlocks size).1 = 0 → (pmm.allocBlocks size).2 = pmm

variable {pmm : Pmm} {size : Word} {start : Nat}

theorem allocBlocks_guarded (few : pmm.getNumFreeBlocks < size.toNat) : pmm.allocBlocks size = (0, pmm) := if_pos few

/-- Behind the guard the scan alone decides. -/
theorem allocBlocks_scanned (enough : size.toNat ≤ pmm.getNumFreeBlocks) :
    ((∀ start, ¬ Fits pmm size start) ∧ pmm.allocBlocks size = (0, pmm)) ∨
    ∃ start, LowestRun pmm pmm.gBitmapSize (calculateNumBlocks size) start ∧
      pmm.allocBlocks size = (blockAddress start, pmm.markPhysicalMemoryRegionUsed (blockAddress start) size) := by
  have positive := calculateNumBlocks_pos size
  unfold allocBlocks
  rw [if_neg (Nat.not_lt.mpr enough)]
  cases found : pmm.findFirstFreeSequence (calculateNumBlocks size) with
  | none => exact .inl ⟨fun start fits => findFirstFreeSequence_none positive found start fits.1 fits.2, rfl⟩
  | some start => exact .inr ⟨start, findFirstFreeSequence_some positive found, rfl⟩

/-- Block 0 is in no run, so no run's address looks like `NULL`. -/
theorem Fits.address_ne_zero (fits : Fits pmm size start) (reserved : pmm.isBlockUsed 0 = true) :
    blockAddress start ≠ 0 := by
  obtain ⟨room, free⟩ := fits
  have positive := calculateNumBlocks_pos size
  rw [Ne, blockAddress_eq_zero (show start < pmm.gBitmapSize by omega)]
  rintro rfl
  have unused := free 0 (Nat.le_refl 0) (by omega)
  simp [reserved] at unused

theorem mem_regionBlocks_blockAddress (fits : Fits pmm size start) {block : Nat} :
    block ∈ regionBlocks (blockAddress start) size ↔
      start ≤ block ∧ block < start + calculateNumBlocks size := by
  have positive := calculateNumBlocks_pos size
  have room := fits.1
  rw [regionBlocks, blockAddress_div (show start < pmm.gBitmapSize by omega)]
  rfl

theorem AllocatesExactly.of_none (none : ∀ start, ¬ Fits pmm size start) (result : pmm.allocBlocks size = (0, pmm)) :
    AllocatesExactly pmm size where
  granted := by
    rw [result]
    exact iff_of_false (fun nonnull => nonnull rfl) fun ⟨start, fits⟩ => none start fits
  lowest nonnull := by
    rw [result] at nonnull
    exact absurd rfl nonnull
  refused _ := by rw [result]

theorem AllocatesExactly.of_run (reserved : pmm.isBlockUsed 0 = true)
    (run : LowestRun pmm pmm.gBitmapSize (calculateNumBlocks size) start)
    (result : pmm.allocBlocks size =
      (blockAddress start, pmm.markPhysicalMemoryRegionUsed (blockAddress start) size)) :
    AllocatesExactly pmm size := by
  have fits : Fits pmm size start := ⟨run.room, run.free⟩
  have nonnull := fits.address_ne_zero reserved
  constructor
  · rw [result]
    exact iff_of_true nonnull ⟨start, fits⟩
  · intro _
    refine ⟨start, fits, fun lower before other => run.lowest lower before other.2, by rw [result], ?_, fun block => ?_⟩
    · rw [result]
      rfl
    · rw [result, isBlockUsed_regionUsed, Bool.or_eq_true, decide_eq_true_eq, mem_regionBlocks_blockAddress fits]
  · rw [result]
    exact fun null => absurd null nonnull

/-- The guard of `alloc_blocks` compares a number of blocks with a number of
bytes: where it lets the request through the scan is exact, and where it does
not the answer is right only if there is no run anyway. -/
theorem allocBlocks_exact_iff (pmm : Pmm) (size : Word) (reserved : pmm.isBlockUsed 0 = true) :
    AllocatesExactly pmm size ↔ size.toNat ≤ pmm.getNumFreeBlocks ∨ ∀ start, ¬ Fits pmm size start := by
  by_cases enough : size.toNat ≤ pmm.getNumFreeBlocks
  · refine iff_of_true ?_ (.inl enough)
    rcases allocBlocks_scanned enough with ⟨none, result⟩ | ⟨start, run, result⟩
    · exact .of_none none result
    · exact .of_run reserved run result
  · have result := allocBlocks_guarded (Nat.not_le.mp enough)
    constructor
    · intro exactly
      refine .inr fun start fits => ?_
      have nonnull := exactly.granted.mpr ⟨start, fits⟩
      rw [result] at nonnull
      exact nonnull rfl
    · exact fun condition => .of_none (condition.resolve_left enough) result

/-- Seven blocks are free, and 4096 bytes need two of them. -/
theorem onePage_refused : ¬ AllocatesExactly eightBlocks 0x1000 := by
  intro exactly
  have fits : Fits eightBlocks 0x1000 1 := by
    refine ⟨by decide, fun block lower upper => ?_⟩
    have cases : block = 1 ∨ block = 2 := by
      have two : calculateNumBlocks 0x1000 = 2 := by decide
      omega
    rcases cases with rfl | rfl <;> decide +kernel
  have nonnull := exactly.granted.mpr ⟨1, fits⟩
  revert nonnull
  decide +kernel

theorem allocBlocks_exact_iff_eightBlocks : AllocatesExactly eightBlocks 5 :=
  (allocBlocks_exact_iff eightBlocks 5 (by decide +kernel)).mpr (.inl (by decide +kernel))

end ScratchOs.Pmm
