import Mathlib.Tactic.Common
import ScratchOs.Data.ByteMemory
import ScratchOs.Data.WordBits

namespace ScratchOs

open Data

/-! The physical memory manager of `kernel/pmm.c`.

The bitmap is the array of 32-bit words at `g_physical_memory_bitmap`; bit `b`
is set when block `b` is used. `g_bitmap_size` is a 32-bit byte count divided
by 4096, which is the bound the structure carries. Block numbers and loop
counters stay below `2 ^ 21`, so the source's `int`s are natural numbers here.
-/

def bitmapBlockSize : Nat := 4096

structure Pmm where
  words : WordBits 32
  gBitmapSize : Nat
  gBitmapSize_le : gBitmapSize ≤ 2 ^ 20 - 1

namespace Pmm

def markBlockFree (pmm : Pmm) (block : Nat) : Pmm := { pmm with words := pmm.words.clear block }

def markBlockUsed (pmm : Pmm) (block : Nat) : Pmm := { pmm with words := pmm.words.set block }

def isBlockUsed (pmm : Pmm) (block : Nat) : Bool := pmm.words.test block

def calculateNumBlocks (size : Word) : Nat := size.toNat / bitmapBlockSize + 1

/-- Block 0 is forced back to used, whatever the region was. -/
def markPhysicalMemoryRegionFree (pmm : Pmm) (baseAddr size : Word) : Pmm :=
  let align := baseAddr.toNat / bitmapBlockSize
  let blocks := calculateNumBlocks size
  markBlockUsed { pmm with words := pmm.words.clearRange align blocks } 0

def markPhysicalMemoryRegionUsed (pmm : Pmm) (baseAddr size : Word) : Pmm :=
  let align := baseAddr.toNat / bitmapBlockSize
  let blocks := calculateNumBlocks size
  { pmm with words := pmm.words.setRange align blocks }

def getNumFreeBlocks (pmm : Pmm) : Nat :=
  (List.range pmm.gBitmapSize).countP fun block => !pmm.isBlockUsed block

/-- The scan of `find_first_free_sequence` over the blocks that are left, with
the length of the free run that ends just before block `i`. The source's `-1`
is `none`. -/
def findFirstFreeSequenceFrom (pmm : Pmm) (numBlocks : Nat) : Nat → Nat → Nat → Option Nat
  | 0, _, _ => none
  | left + 1, i, consecutiveFree =>
      if pmm.isBlockUsed i then findFirstFreeSequenceFrom pmm numBlocks left (i + 1) 0
      else if consecutiveFree + 1 = numBlocks then some (i + 1 - numBlocks)
      else findFirstFreeSequenceFrom pmm numBlocks left (i + 1) (consecutiveFree + 1)

def findFirstFreeSequence (pmm : Pmm) (numBlocks : Nat) : Option Nat :=
  findFirstFreeSequenceFrom pmm numBlocks pmm.gBitmapSize 0 0

def findFirstFreeBlock (pmm : Pmm) : Option Nat :=
  (List.range pmm.gBitmapSize).find? fun block => !pmm.isBlockUsed block

def blockAddress (block : Nat) : Word := BitVec.ofNat 32 (block * bitmapBlockSize)

/-- The returned pointer is 0 when the source returns `NULL`. -/
def allocBlock (pmm : Pmm) : Word × Pmm :=
  match pmm.findFirstFreeBlock with
  | none => (0, pmm)
  | some block => (blockAddress block, pmm.markBlockUsed block)

def freeBlock (pmm : Pmm) (addr : Word) : Pmm := pmm.markBlockFree (addr.toNat / bitmapBlockSize)

/-- The guard compares a number of blocks with a number of bytes, as the source does. -/
def allocBlocks (pmm : Pmm) (size : Word) : Word × Pmm :=
  if pmm.getNumFreeBlocks < size.toNat then (0, pmm)
  else
    match pmm.findFirstFreeSequence (calculateNumBlocks size) with
    | none => (0, pmm)
    | some startingBlock =>
        let allocatedAddress := blockAddress startingBlock
        (allocatedAddress, pmm.markPhysicalMemoryRegionUsed allocatedAddress size)

def freeBlocks (pmm : Pmm) (addr size : Word) : Pmm := pmm.markPhysicalMemoryRegionFree addr size

variable {pmm : Pmm} {block other : Nat} {base size : Word}

@[simp] theorem isBlockUsed_markBlockUsed :
    (pmm.markBlockUsed block).isBlockUsed other = (decide (other = block) || pmm.isBlockUsed other) :=
  WordBits.test_set (by decide) ..

@[simp] theorem isBlockUsed_markBlockFree :
    (pmm.markBlockFree block).isBlockUsed other = (!decide (other = block) && pmm.isBlockUsed other) :=
  WordBits.test_clear (by decide) ..

theorem calculateNumBlocks_pos (size : Word) : 0 < calculateNumBlocks size := Nat.succ_pos _

/-- The blocks a marking loop visits. -/
def regionBlocks (base size : Word) : Set Nat :=
  { block | base.toNat / bitmapBlockSize ≤ block ∧
    block < base.toNat / bitmapBlockSize + calculateNumBlocks size }

instance (base size : Word) (block : Nat) : Decidable (block ∈ regionBlocks base size) :=
  inferInstanceAs (Decidable (_ ∧ _))

@[simp] theorem isBlockUsed_regionUsed :
    (pmm.markPhysicalMemoryRegionUsed base size).isBlockUsed block =
      (decide (block ∈ regionBlocks base size) || pmm.isBlockUsed block) :=
  WordBits.test_setRange (by decide) ..

@[simp] theorem isBlockUsed_regionFree :
    (pmm.markPhysicalMemoryRegionFree base size).isBlockUsed block =
      (decide (block = 0) || (!decide (block ∈ regionBlocks base size) && pmm.isBlockUsed block)) := by
  unfold markPhysicalMemoryRegionFree
  rw [isBlockUsed_markBlockUsed]
  congr 1
  exact WordBits.test_clearRange (by decide) ..

@[simp] theorem gBitmapSize_markBlockUsed : (pmm.markBlockUsed block).gBitmapSize = pmm.gBitmapSize := rfl

@[simp] theorem gBitmapSize_markBlockFree : (pmm.markBlockFree block).gBitmapSize = pmm.gBitmapSize := rfl

@[simp] theorem gBitmapSize_regionUsed :
    (pmm.markPhysicalMemoryRegionUsed base size).gBitmapSize = pmm.gBitmapSize := rfl

@[simp] theorem gBitmapSize_regionFree :
    (pmm.markPhysicalMemoryRegionFree base size).gBitmapSize = pmm.gBitmapSize := rfl

theorem blockAddress_toNat (below : block < pmm.gBitmapSize) :
    (blockAddress block).toNat = block * bitmapBlockSize := by
  have bound := pmm.gBitmapSize_le
  rw [blockAddress, BitVec.toNat_ofNat, Nat.mod_eq_of_lt]
  unfold bitmapBlockSize
  omega

theorem blockAddress_div (below : block < pmm.gBitmapSize) :
    (blockAddress block).toNat / bitmapBlockSize = block := by
  rw [blockAddress_toNat below]
  exact Nat.mul_div_cancel _ (by decide)

theorem blockAddress_eq_zero (below : block < pmm.gBitmapSize) : blockAddress block = 0 ↔ block = 0 := by
  rw [← BitVec.toNat_inj, blockAddress_toNat below]
  simp only [bitmapBlockSize, BitVec.ofNat_eq_ofNat, BitVec.toNat_ofNat]
  omega

/-- Everything `find_first_free_block` and `alloc_block` can do: there is no
free block and nothing changes, or the lowest free block is taken. -/
theorem allocBlock_cases (pmm : Pmm) :
    ((∀ block < pmm.gBitmapSize, pmm.isBlockUsed block = true) ∧ pmm.allocBlock = (0, pmm)) ∨
    ∃ block < pmm.gBitmapSize, pmm.isBlockUsed block = false ∧
      (∀ lower < block, pmm.isBlockUsed lower = true) ∧
      pmm.allocBlock = (blockAddress block, pmm.markBlockUsed block) := by
  cases found : pmm.findFirstFreeBlock with
  | none =>
      refine .inl ⟨?_, by simp only [allocBlock, found]⟩
      intro block below
      simpa using List.find?_eq_none.mp found block (by simpa using below)
  | some block =>
      obtain ⟨free, below, minimal⟩ := List.find?_range_eq_some.mp found
      refine .inr ⟨block, by simpa using below, by simpa using free, ?_,
        by simp only [allocBlock, found]⟩
      intro lower before
      simpa using minimal lower before

theorem gBitmapSize_allocBlock (pmm : Pmm) : pmm.allocBlock.2.gBitmapSize = pmm.gBitmapSize := by
  rcases pmm.allocBlock_cases with ⟨_, taken⟩ | ⟨block, _, _, _, taken⟩
  · rw [taken]
  · rw [taken]
    rfl

theorem allocBlock_mod (pmm : Pmm) : pmm.allocBlock.1.toNat % 4096 = 0 := by
  rcases pmm.allocBlock_cases with ⟨_, taken⟩ | ⟨block, below, _, _, taken⟩
  · rw [taken]
    rfl
  · rw [taken, blockAddress_toNat below]
    exact Nat.mul_mod_left ..

theorem allocBlock_used (used : pmm.isBlockUsed block = true) : pmm.allocBlock.2.isBlockUsed block = true := by
  rcases pmm.allocBlock_cases with ⟨_, taken⟩ | ⟨_, _, _, _, taken⟩
  · rwa [taken]
  · rw [taken, isBlockUsed_markBlockUsed, used, Bool.or_true]

/-- With a free block at hand, the block taken was free and is used now. -/
theorem allocBlock_taken (free : ∃ block < pmm.gBitmapSize, pmm.isBlockUsed block = false) :
    pmm.isBlockUsed (pmm.allocBlock.1.toNat / 4096) = false ∧
      pmm.allocBlock.2.isBlockUsed (pmm.allocBlock.1.toNat / 4096) = true := by
  rcases pmm.allocBlock_cases with ⟨full, _⟩ | ⟨block, below, unused, _, taken⟩
  · obtain ⟨block, below, unused⟩ := free
    simp [full block below] at unused
  · have index : (blockAddress block).toNat / 4096 = block := blockAddress_div below
    rw [taken, index, isBlockUsed_markBlockUsed, decide_eq_true rfl, Bool.true_or]
    exact ⟨unused, rfl⟩

theorem allocBlock_nonnull (nonnull : pmm.allocBlock.1 ≠ 0) :
    ∃ block < pmm.gBitmapSize, pmm.isBlockUsed block = false := by
  rcases pmm.allocBlock_cases with ⟨_, taken⟩ | ⟨block, below, unused, _, _⟩
  · rw [taken] at nonnull
    exact absurd rfl nonnull
  · exact ⟨block, below, unused⟩

theorem allocBlock_ne_zero (reserved : pmm.isBlockUsed 0 = true)
    (free : ∃ block < pmm.gBitmapSize, pmm.isBlockUsed block = false) : pmm.allocBlock.1 ≠ 0 := by
  intro null
  have unused := (allocBlock_taken free).1
  rw [null] at unused
  simp [reserved] at unused

/-- Giving back the block just taken undoes the call. -/
theorem freeBlock_allocBlock (nonnull : pmm.allocBlock.1 ≠ 0) (block : Nat) :
    (pmm.allocBlock.2.freeBlock pmm.allocBlock.1).isBlockUsed block = pmm.isBlockUsed block := by
  rcases pmm.allocBlock_cases with ⟨_, taken⟩ | ⟨lowest, below, unused, _, taken⟩
  · rw [taken] at nonnull
    exact absurd rfl nonnull
  · rw [taken, freeBlock, isBlockUsed_markBlockFree, isBlockUsed_markBlockUsed, blockAddress_div below]
    by_cases same : block = lowest
    · simp [same, unused]
    · simp [same]

theorem freeBlock_allocBlock_self (nonnull : pmm.allocBlock.1 ≠ 0) :
    pmm.allocBlock.2.freeBlock pmm.allocBlock.1 = pmm := by
  have words : (pmm.allocBlock.2.freeBlock pmm.allocBlock.1).words = pmm.words :=
    WordBits.ext_test (by decide) (freeBlock_allocBlock nonnull)
  rcases pmm.allocBlock_cases with ⟨_, taken⟩ | ⟨lowest, _, _, _, taken⟩
  · rw [taken] at nonnull
    exact absurd rfl nonnull
  · rw [taken] at words ⊢
    exact congrArg (fun words => ({ pmm with words := words } : Pmm)) words

/-- A block that was the lowest free one and is free again goes first again. -/
theorem allocBlock_again {after : Pmm} (nonnull : pmm.allocBlock.1 ≠ 0) (size : after.gBitmapSize = pmm.gBitmapSize)
    (free : after.isBlockUsed (pmm.allocBlock.1.toNat / 4096) = false)
    (kept : ∀ block, pmm.isBlockUsed block = true → after.isBlockUsed block = true) :
    after.allocBlock.1 = pmm.allocBlock.1 := by
  rcases pmm.allocBlock_cases with ⟨_, taken⟩ | ⟨lowest, below, _, minimal, taken⟩
  · rw [taken] at nonnull
    exact absurd rfl nonnull
  · have index : (blockAddress lowest).toNat / 4096 = lowest := blockAddress_div below
    rw [taken, index] at free
    rcases after.allocBlock_cases with ⟨full, _⟩ | ⟨block, _, unused, first, again⟩
    · simp [full lowest (by rwa [size])] at free
    · have same : block = lowest := by
        rcases Nat.lt_trichotomy block lowest with lower | same | higher
        · simp [kept block (minimal block lower)] at unused
        · exact same
        · simp [first lowest higher] at free
      rw [again, taken, same]

/-- The lowest block goes first, so a second block is never block 0. -/
theorem allocBlock_second (free : ∃ block < pmm.allocBlock.2.gBitmapSize, pmm.allocBlock.2.isBlockUsed block = false) :
    pmm.allocBlock.2.allocBlock.1 ≠ 0 := by
  rcases pmm.allocBlock.2.allocBlock_cases with ⟨full, _⟩ | ⟨block, below, unused, _, taken⟩
  · obtain ⟨block, below, unused⟩ := free
    simp [full block below] at unused
  · rw [taken, Ne, blockAddress_eq_zero below]
    rintro rfl
    rcases pmm.allocBlock_cases with ⟨full, first⟩ | ⟨lowest, _, _, minimal, first⟩
    · rw [first] at below unused
      simp [full 0 below] at unused
    · rw [first, isBlockUsed_markBlockUsed] at unused
      cases lowest with
      | zero => simp at unused
      | succ lowest => simp [minimal 0 (Nat.succ_pos _)] at unused

theorem getNumFreeBlocks_pos :
    0 < pmm.getNumFreeBlocks ↔ ∃ block < pmm.gBitmapSize, pmm.isBlockUsed block = false := by
  simp [getNumFreeBlocks, List.countP_pos_iff]

theorem countP_markBlockUsed {size : Nat} (unused : pmm.isBlockUsed block = false) :
    (List.range size).countP (fun other => !pmm.isBlockUsed other) =
      (List.range size).countP (fun other => !(pmm.markBlockUsed block).isBlockUsed other) +
        if block < size then 1 else 0 := by
  induction size with
  | zero => rfl
  | succ size ih =>
      rw [List.range_succ, List.countP_append, List.countP_append, ih]
      simp only [List.countP_singleton, isBlockUsed_markBlockUsed]
      rcases Nat.lt_trichotomy block size with before | rfl | behind
      · have different : size ≠ block := by omega
        simp only [before, Nat.lt_succ_of_lt before, different, decide_false, Bool.false_or, if_true]
        omega
      · simp [unused]
      · have different : size ≠ block := by omega
        simp [Nat.not_lt.mpr (Nat.le_of_lt behind), Nat.not_lt.mpr (Nat.succ_le_of_lt behind), different]

theorem getNumFreeBlocks_allocBlock : pmm.allocBlock.2.getNumFreeBlocks = pmm.getNumFreeBlocks - 1 := by
  rcases pmm.allocBlock_cases with ⟨full, taken⟩ | ⟨block, below, unused, _, taken⟩
  · have none : pmm.getNumFreeBlocks = 0 := by
      by_contra some
      obtain ⟨block, below, unused⟩ := getNumFreeBlocks_pos.mp (Nat.pos_of_ne_zero some)
      simp [full block below] at unused
    rw [taken, none]
  · have count := @countP_markBlockUsed pmm block pmm.gBitmapSize unused
    rw [if_pos below] at count
    rw [taken, getNumFreeBlocks, getNumFreeBlocks, count]
    rfl

/-- A run of free blocks, wherever the bitmap ends. -/
def FreeRun (pmm : Pmm) (start numBlocks : Nat) : Prop :=
  ∀ block, start ≤ block → block < start + numBlocks → pmm.isBlockUsed block = false

/-- A run that lies below `limit` and has no other such run in front of it. -/
structure LowestRun (pmm : Pmm) (limit numBlocks start : Nat) : Prop where
  room : start + numBlocks ≤ limit
  free : pmm.FreeRun start numBlocks
  lowest : ∀ lower < start, ¬ pmm.FreeRun lower numBlocks

/-- The counter is the length of the free run that ends in front of block `i`:
it goes back to block 0 or to a used block, and no complete run has been passed. -/
structure Scanned (pmm : Pmm) (numBlocks i consecutiveFree : Nat) : Prop where
  short : consecutiveFree < numBlocks
  within : consecutiveFree ≤ i
  free : pmm.FreeRun (i - consecutiveFree) consecutiveFree
  stopped : consecutiveFree = i ∨ pmm.isBlockUsed (i - consecutiveFree - 1) = true
  passed : ∀ start, start + numBlocks ≤ i → ¬ pmm.FreeRun start numBlocks

namespace Scanned

variable {numBlocks i consecutiveFree : Nat}

theorem start (pmm : Pmm) (positive : 0 < numBlocks) : Scanned pmm numBlocks 0 0 where
  short := positive
  within := Nat.le_refl 0
  free _ lower upper := by omega
  stopped := .inl rfl
  passed _ room := by omega

theorem used (scanned : Scanned pmm numBlocks i consecutiveFree) (used : pmm.isBlockUsed i = true) :
    Scanned pmm numBlocks (i + 1) 0 where
  short := Nat.zero_lt_of_lt scanned.short
  within := Nat.zero_le _
  free _ lower upper := by omega
  stopped := .inr used
  passed start room run := by
    by_cases before : start + numBlocks ≤ i
    · exact scanned.passed start before run
    · have short := scanned.short
      have unused := run i (by omega) (by omega)
      simp [used] at unused

theorem extended (scanned : Scanned pmm numBlocks i consecutiveFree) (unused : pmm.isBlockUsed i = false) :
    pmm.FreeRun (i - consecutiveFree) (consecutiveFree + 1) := by
  intro block lower upper
  by_cases last : block = i
  · rw [last]
    exact unused
  · have within := scanned.within
    exact scanned.free block lower (by omega)

theorem unused (scanned : Scanned pmm numBlocks i consecutiveFree) (unused : pmm.isBlockUsed i = false)
    (incomplete : consecutiveFree + 1 ≠ numBlocks) : Scanned pmm numBlocks (i + 1) (consecutiveFree + 1) where
  short := by
    have short := scanned.short
    omega
  within := Nat.succ_le_succ scanned.within
  free := by
    rw [Nat.add_sub_add_right]
    exact scanned.extended unused
  stopped := by
    rw [Nat.add_sub_add_right]
    exact scanned.stopped.imp_left (congrArg (· + 1))
  passed start room run := by
    have short := scanned.short
    by_cases before : start + numBlocks ≤ i
    · exact scanned.passed start before run
    · rcases scanned.stopped with all | used
      · omega
      · have free := run (i - consecutiveFree - 1) (by omega) (by omega)
        simp [used] at free

theorem complete (scanned : Scanned pmm numBlocks i consecutiveFree) (unused : pmm.isBlockUsed i = false)
    (complete : consecutiveFree + 1 = numBlocks) : LowestRun pmm (i + 1) numBlocks (i + 1 - numBlocks) where
  room := by
    have within := scanned.within
    omega
  free := by
    have run := scanned.extended unused
    rwa [complete, show i - consecutiveFree = i + 1 - numBlocks by omega] at run
  lowest lower before := scanned.passed lower (by omega)

end Scanned

/-- The scan finds the lowest run among the blocks that are left, or there is none. -/
theorem findFirstFreeSequenceFrom_spec {numBlocks left i consecutiveFree : Nat}
    (scanned : Scanned pmm numBlocks i consecutiveFree) :
    match pmm.findFirstFreeSequenceFrom numBlocks left i consecutiveFree with
    | none => ∀ start, start + numBlocks ≤ i + left → ¬ pmm.FreeRun start numBlocks
    | some start => LowestRun pmm (i + left) numBlocks start := by
  induction left generalizing i consecutiveFree with
  | zero => exact scanned.passed
  | succ left ih =>
      rw [findFirstFreeSequenceFrom, Nat.add_comm left, ← Nat.add_assoc]
      by_cases used : pmm.isBlockUsed i = true
      · rw [if_pos used]
        exact ih (scanned.used used)
      · have unused : pmm.isBlockUsed i = false := by simpa using used
        rw [if_neg used]
        by_cases complete : consecutiveFree + 1 = numBlocks
        · rw [if_pos complete]
          obtain ⟨room, free, lowest⟩ := scanned.complete unused complete
          exact ⟨by omega, free, lowest⟩
        · rw [if_neg complete]
          exact ih (scanned.unused unused complete)

theorem findFirstFreeSequence_none {numBlocks : Nat} (positive : 0 < numBlocks)
    (missed : pmm.findFirstFreeSequence numBlocks = none) :
    ∀ start, start + numBlocks ≤ pmm.gBitmapSize → ¬ pmm.FreeRun start numBlocks := by
  have found := @findFirstFreeSequenceFrom_spec pmm numBlocks pmm.gBitmapSize 0 0 (.start pmm positive)
  rw [← findFirstFreeSequence, missed, Nat.zero_add] at found
  exact found

theorem findFirstFreeSequence_some {numBlocks start : Nat} (positive : 0 < numBlocks)
    (hit : pmm.findFirstFreeSequence numBlocks = some start) : LowestRun pmm pmm.gBitmapSize numBlocks start := by
  have found := @findFirstFreeSequenceFrom_spec pmm numBlocks pmm.gBitmapSize 0 0 (.start pmm positive)
  rw [← findFirstFreeSequence, hit, Nat.zero_add] at found
  exact found

theorem allocBlocks_cases (pmm : Pmm) (size : Word) :
    pmm.allocBlocks size = (0, pmm) ∨
    ∃ start, start + calculateNumBlocks size ≤ pmm.gBitmapSize ∧
      (∀ block ∈ regionBlocks (blockAddress start) size, pmm.isBlockUsed block = false) ∧
      pmm.allocBlocks size =
        (blockAddress start, pmm.markPhysicalMemoryRegionUsed (blockAddress start) size) := by
  unfold allocBlocks
  split
  · exact .inl rfl
  · cases found : pmm.findFirstFreeSequence (calculateNumBlocks size) with
    | none => exact .inl rfl
    | some start =>
        have positive := calculateNumBlocks_pos size
        obtain ⟨room, free, _⟩ := findFirstFreeSequence_some positive found
        have below : start < pmm.gBitmapSize := by omega
        refine .inr ⟨start, room, ?_, rfl⟩
        rintro block ⟨lower, upper⟩
        rw [blockAddress_div below] at lower upper
        exact free block lower upper

end Pmm

end ScratchOs
