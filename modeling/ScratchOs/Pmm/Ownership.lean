import ScratchOs.Data.Ownership
import ScratchOs.Pmm.Bitmap

namespace ScratchOs.Pmm

open Data

/-- A pointer a client got from the physical memory manager and the call it
has to be given back with. -/
inductive Allocation where
  | block (addr : Word)
  | blocks (addr size : Word)
deriving DecidableEq

namespace Allocation

def addr : Allocation → Word
  | .block addr => addr
  | .blocks addr _ => addr

def firstBlock (allocation : Allocation) : Nat := allocation.addr.toNat / bitmapBlockSize

def numBlocks : Allocation → Nat
  | .block _ => 1
  | .blocks _ size => calculateNumBlocks size

def region (allocation : Allocation) : Set Nat :=
  { block | allocation.firstBlock ≤ block ∧ block < allocation.firstBlock + allocation.numBlocks }

instance (allocation : Allocation) (block : Nat) : Decidable (block ∈ allocation.region) :=
  inferInstanceAs (Decidable (_ ∧ _))

theorem mem_region_block {addr : Word} {block : Nat} :
    block ∈ (Allocation.block addr).region ↔ block = addr.toNat / bitmapBlockSize := by
  simp only [region, firstBlock, numBlocks, Allocation.addr, Set.mem_ofPred_eq]
  omega

end Allocation

/-- The manager together with the allocations its clients hold. -/
structure Tracked where
  pmm : Pmm
  live : List Allocation

def Tracked.record (allocation : Allocation) (pmm : Pmm) (live : List Allocation) : Tracked where
  pmm := pmm
  live := if allocation.addr = 0 then live else allocation :: live

/-- The states a well-behaved client can drive the manager to: any order of
allocations, and frees that name a live allocation with its own call and size. -/
inductive Reachable (start : Pmm) : Tracked → Prop
  | start : Reachable start ⟨start, []⟩
  | allocBlock {pmm live} : Reachable start ⟨pmm, live⟩ →
      Reachable start (.record (.block pmm.allocBlock.1) pmm.allocBlock.2 live)
  | allocBlocks {pmm live} (size : Word) : Reachable start ⟨pmm, live⟩ →
      Reachable start (.record (.blocks (pmm.allocBlocks size).1 size) (pmm.allocBlocks size).2 live)
  | freeBlock {pmm live} {addr : Word} : Reachable start ⟨pmm, live⟩ → .block addr ∈ live →
      Reachable start ⟨pmm.freeBlock addr, live.erase (.block addr)⟩
  | freeBlocks {pmm live} {addr size : Word} : Reachable start ⟨pmm, live⟩ → .blocks addr size ∈ live →
      Reachable start ⟨pmm.freeBlocks addr size, live.erase (.blocks addr size)⟩

/-- The blocks the manager can hand out that are marked used. -/
def usedBlocks (pmm : Pmm) : Set Nat := { block | block < pmm.gBitmapSize ∧ pmm.isBlockUsed block = true }

/-- What every reachable state keeps: the bitmap below its size is exactly the
start bitmap and the live regions, which are disjoint from it and each other. -/
structure Accounted (start : Pmm) (state : Tracked) : Prop where
  size : state.pmm.gBitmapSize = start.gBitmapSize
  reserved : state.pmm.isBlockUsed 0 = true
  owned : Owned Allocation.region start.usedBlocks state.pmm.usedBlocks state.live
  nonzero : ∀ allocation ∈ state.live, 0 ∉ allocation.region

variable {initial pmm : Pmm} {live : List Allocation} {allocation : Allocation}

theorem Accounted.start (reserved : initial.isBlockUsed 0 = true) : Accounted initial ⟨initial, []⟩ where
  size := rfl
  reserved := reserved
  owned := .start ..
  nonzero := by simp

/-- Handing out a region of free blocks: every successful allocation is this step. -/
theorem Accounted.take (accounted : Accounted initial ⟨pmm, live⟩) {after : Pmm}
    (size : after.gBitmapSize = pmm.gBitmapSize)
    (below : ∀ block ∈ allocation.region, block < pmm.gBitmapSize)
    (free : ∀ block ∈ allocation.region, pmm.isBlockUsed block = false)
    (marked : ∀ block, after.isBlockUsed block =
      (decide (block ∈ allocation.region) || pmm.isBlockUsed block)) :
    Accounted initial ⟨after, allocation :: live⟩ where
  size := size.trans accounted.size
  reserved := by simp [marked, accounted.reserved]
  owned := by
    have apart : Disjoint allocation.region pmm.usedBlocks := by
      rw [Set.disjoint_left]
      rintro block inside ⟨_, used⟩
      simp [free block inside] at used
    have same : after.usedBlocks = pmm.usedBlocks ∪ allocation.region := by
      ext block
      simp only [usedBlocks, Set.mem_union, Set.mem_ofPred_eq, size, marked, Bool.or_eq_true,
        decide_eq_true_eq]
      have bounded := below block
      grind
    simpa only [same] using accounted.owned.take apart
  nonzero := by
    intro other member
    rcases List.mem_cons.mp member with rfl | member
    · intro inside
      have used := accounted.reserved
      simp [free 0 inside] at used
    · exact accounted.nonzero other member

/-- Giving a live region back; the bit of block 0 never depends on it. -/
theorem Accounted.release (accounted : Accounted initial ⟨pmm, live⟩) {after : Pmm}
    (member : allocation ∈ live) (size : after.gBitmapSize = pmm.gBitmapSize)
    (marked : ∀ block, block ≠ 0 → after.isBlockUsed block =
      (!decide (block ∈ allocation.region) && pmm.isBlockUsed block))
    (reserved : after.isBlockUsed 0 = true) :
    Accounted initial ⟨after, live.erase allocation⟩ where
  size := size.trans accounted.size
  reserved := reserved
  owned := by
    have nonzero := accounted.nonzero allocation member
    have before := accounted.reserved
    have same : after.usedBlocks = pmm.usedBlocks \ allocation.region := by
      ext block
      simp only [usedBlocks, Set.mem_sdiff, Set.mem_ofPred_eq, size]
      by_cases zero : block = 0
      · subst zero
        simp [reserved, before, nonzero]
      · rw [marked block zero, Bool.and_eq_true, Bool.not_eq_true', decide_eq_false_iff_not]
        tauto
    simpa only [same] using accounted.owned.release member
  nonzero other remains := accounted.nonzero other (List.mem_of_mem_erase remains)

theorem Accounted.allocBlock (accounted : Accounted initial ⟨pmm, live⟩) :
    Accounted initial (.record (.block pmm.allocBlock.1) pmm.allocBlock.2 live) := by
  rcases pmm.allocBlock_cases with ⟨_, result⟩ | ⟨block, below, free, _, result⟩
  · simpa [result, Tracked.record, Allocation.addr] using accounted
  · have nonzero : block ≠ 0 := by
      rintro rfl
      have used := accounted.reserved
      simp [free] at used
    have address : blockAddress block ≠ 0 := (blockAddress_eq_zero below).not.mpr nonzero
    have only : ∀ other, other ∈ (Allocation.block (blockAddress block)).region ↔ other = block := by
      intro other
      rw [Allocation.mem_region_block, blockAddress_div below]
    simp only [result, Tracked.record, Allocation.addr, if_neg address]
    refine accounted.take ?_ ?_ ?_ ?_
    · rfl
    · intro other inside
      rwa [(only other).mp inside]
    · intro other inside
      rwa [(only other).mp inside]
    · intro other
      simp only [isBlockUsed_markBlockUsed, only]

theorem Accounted.allocBlocks (accounted : Accounted initial ⟨pmm, live⟩) (size : Word) :
    Accounted initial (.record (.blocks (pmm.allocBlocks size).1 size) (pmm.allocBlocks size).2 live) := by
  rcases pmm.allocBlocks_cases size with result | ⟨first, room, free, result⟩
  · simpa [result, Tracked.record, Allocation.addr] using accounted
  · have positive := calculateNumBlocks_pos size
    have below : first < pmm.gBitmapSize := by omega
    have inside : first ∈ regionBlocks (blockAddress first) size := by
      simp only [regionBlocks, Set.mem_ofPred_eq, blockAddress_div below]
      omega
    have nonzero : first ≠ 0 := by
      rintro rfl
      have used := accounted.reserved
      simp [free 0 inside] at used
    have address : blockAddress first ≠ 0 := (blockAddress_eq_zero below).not.mpr nonzero
    simp only [result, Tracked.record, Allocation.addr, if_neg address]
    refine accounted.take ?_ ?_ ?_ ?_
    · rfl
    · rintro block ⟨_, upper⟩
      simp only [Allocation.firstBlock, Allocation.addr, Allocation.numBlocks,
        blockAddress_div below] at upper
      omega
    · exact free
    · intro block
      exact isBlockUsed_regionUsed

theorem Accounted.freeBlock (accounted : Accounted initial ⟨pmm, live⟩) {addr : Word}
    (member : .block addr ∈ live) :
    Accounted initial ⟨pmm.freeBlock addr, live.erase (.block addr)⟩ := by
  have nonzero := accounted.nonzero _ member
  rw [Allocation.mem_region_block] at nonzero
  have marked : ∀ block, (pmm.freeBlock addr).isBlockUsed block =
      (!decide (block ∈ (Allocation.block addr).region) && pmm.isBlockUsed block) := by
    intro block
    simp only [Pmm.freeBlock, isBlockUsed_markBlockFree, Allocation.mem_region_block]
  refine accounted.release member ?_ (fun block _ => marked block) ?_
  · rfl
  · simp [Pmm.freeBlock, nonzero, accounted.reserved]

theorem Accounted.freeBlocks (accounted : Accounted initial ⟨pmm, live⟩) {addr size : Word}
    (member : .blocks addr size ∈ live) :
    Accounted initial ⟨pmm.freeBlocks addr size, live.erase (.blocks addr size)⟩ := by
  refine accounted.release member ?_ ?_ ?_
  · rfl
  · intro block nonzero
    have marked := @isBlockUsed_regionFree pmm block addr size
    simp only [nonzero, decide_false, Bool.false_or] at marked
    exact marked
  · simp [Pmm.freeBlocks]

theorem Reachable.accounted (reserved : initial.isBlockUsed 0 = true) {state : Tracked}
    (reached : Reachable initial state) : Accounted initial state := by
  induction reached with
  | start => exact .start reserved
  | allocBlock _ ih => exact ih.allocBlock
  | allocBlocks size _ ih => exact ih.allocBlocks size
  | freeBlock _ member ih => exact ih.freeBlock member
  | freeBlocks _ member ih => exact ih.freeBlocks member

/-- Frame ownership over whole runs: the bitmap is the start bitmap plus the
live regions, live regions never meet, and freeing everything restores it. -/
theorem frame_ownership (start : Pmm) (reserved : start.isBlockUsed 0 = true) (state : Tracked)
    (reached : Reachable start state) :
    (∀ block < start.gBitmapSize, state.pmm.isBlockUsed block = true ↔
      start.isBlockUsed block = true ∨ state.live.countP (fun owner => block ∈ owner.region) = 1) ∧
    state.live.Pairwise (fun left right => Disjoint left.region right.region) ∧
    (∀ owner ∈ state.live, ∀ block ∈ owner.region, block < start.gBitmapSize ∧ block ≠ 0) ∧
    (state.live = [] → ∀ block < start.gBitmapSize,
      state.pmm.isBlockUsed block = start.isBlockUsed block) := by
  have accounted := reached.accounted reserved
  have used : ∀ block < start.gBitmapSize, state.pmm.isBlockUsed block = true ↔
      start.isBlockUsed block = true ∨ ∃ owner ∈ state.live, block ∈ owner.region := by
    intro block below
    have law := accounted.owned.used_iff block
    simpa only [usedBlocks, Set.mem_ofPred_eq, accounted.size, below, true_and] using law
  refine ⟨?_, accounted.owned.disjoint, ?_, ?_⟩
  · intro block below
    rw [used block below, Owned.countP_eq_one accounted.owned.disjoint (fun _ => decide_eq_true_iff)]
  · intro owner member block inside
    have held := accounted.owned.region_subset member inside
    refine ⟨accounted.size ▸ held.1, ?_⟩
    rintro rfl
    exact accounted.nonzero owner member inside
  · intro empty block below
    have law := used block below
    simp only [empty, List.not_mem_nil, false_and, exists_false, or_false] at law
    exact Bool.eq_iff_iff.mpr law

/-- Eight blocks, of which only block 0 is taken. -/
def eightBlocks : Pmm where
  words _ := 1
  gBitmapSize := 8
  gBitmapSize_le := Nat.le_of_ble_eq_true rfl

theorem frame_ownership_eightBlocks :
    eightBlocks.isBlockUsed 0 = true ∧
      Disjoint (Allocation.blocks 0x2000 5).region (Allocation.block 0x1000).region := by
  have reserved : eightBlocks.isBlockUsed 0 = true := by decide +kernel
  have reached := (@Reachable.start eightBlocks).allocBlock.allocBlocks 5
  obtain ⟨_, apart, _⟩ := frame_ownership eightBlocks reserved _ reached
  have held : (eightBlocks.allocBlock.2.allocBlocks 5).1 = 0x2000 ∧ eightBlocks.allocBlock.1 = 0x1000 := by
    decide +kernel
  simp only [Tracked.record, Allocation.addr, held, show (0x2000 : Word) ≠ 0 by decide,
    show (0x1000 : Word) ≠ 0 by decide, if_false, List.pairwise_cons] at apart
  exact ⟨reserved, apart.1 _ (by simp)⟩

end ScratchOs.Pmm
