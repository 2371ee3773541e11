import Mathlib.Data.Finset.Card
import ScratchOs.Paging.Switch
import ScratchOs.Pmm.Init
import ScratchOs.Pmm.Ownership

namespace ScratchOs

open Data

/-! The frames left to hand out once `start` has set up the bitmap and paging.

`start` reserves the four megabytes from address 0. The kernel's window covers
the four megabytes from `KERNEL_LOAD_ADDR`, one megabyte further up. -/

namespace Pmm

variable {pmm : Pmm} {block bound : Nat}

/-- The blocks below `bound` that `alloc_block` can still take. -/
def freeBelow (pmm : Pmm) (bound : Nat) : Finset Nat :=
  {block ∈ Finset.range bound | block < pmm.gBitmapSize ∧ pmm.isBlockUsed block = false}

theorem mem_freeBelow :
    block ∈ pmm.freeBelow bound ↔ block < bound ∧ block < pmm.gBitmapSize ∧ pmm.isBlockUsed block = false := by
  rw [freeBelow, Finset.mem_filter, Finset.mem_range]

theorem freeBelow_eq_empty :
    pmm.freeBelow bound = ∅ ↔ ∀ block < pmm.gBitmapSize, pmm.isBlockUsed block = false → bound ≤ block := by
  simp only [Finset.eq_empty_iff_forall_notMem, mem_freeBelow, not_and]
  constructor
  · intro none block below unused
    by_contra low
    exact none block (Nat.lt_of_not_le low) below unused
  · intro high block low below unused
    exact absurd (high block below unused) (Nat.not_le.mpr low)

theorem freeBelow_of_full (full : pmm.getNumFreeBlocks = 0) : pmm.freeBelow bound = ∅ := by
  refine freeBelow_eq_empty.mpr fun block below unused => ?_
  have positive := getNumFreeBlocks_pos.mpr ⟨block, below, unused⟩
  omega

/-- The lowest block goes first: as long as there are free blocks below `bound`, it is one of them. -/
theorem card_freeBelow_allocBlock :
    (pmm.allocBlock.2.freeBelow bound).card = (pmm.freeBelow bound).card - 1 := by
  rcases pmm.allocBlock_cases with ⟨full, taken⟩ | ⟨lowest, below, unused, minimal, taken⟩
  · have none : pmm.freeBelow bound = ∅ := freeBelow_eq_empty.mpr fun block below unused => by
      simp [full block below] at unused
    rw [taken, none]
    rfl
  · have erased : pmm.allocBlock.2.freeBelow bound = (pmm.freeBelow bound).erase lowest := by
      ext block
      rw [taken, Finset.mem_erase, mem_freeBelow, mem_freeBelow, isBlockUsed_markBlockUsed, Bool.or_eq_false_iff,
        decide_eq_false_iff_not, gBitmapSize_markBlockUsed]
      tauto
    rw [erased]
    by_cases low : lowest < bound
    · exact Finset.card_erase_of_mem (mem_freeBelow.mpr ⟨low, below, unused⟩)
    · have none : pmm.freeBelow bound = ∅ := freeBelow_eq_empty.mpr fun block _ free => by
        by_contra under
        simp [minimal block (by omega)] at free
      rw [none]
      rfl

/-- The scan starts at `block`, which is free with the `count` blocks behind it. -/
structure NextFree (pmm : Pmm) (block count : Nat) : Prop where
  minimal : ∀ lower < block, pmm.isBlockUsed lower = true
  unused : ∀ other, block ≤ other → other ≤ block + count → pmm.isBlockUsed other = false
  below : block + count < pmm.gBitmapSize

theorem NextFree.taken {count : Nat} (next : pmm.NextFree block count) :
    pmm.allocBlock = (blockAddress block, pmm.markBlockUsed block) := by
  have free := next.unused block (Nat.le_refl _) (Nat.le_add_right ..)
  have below : block < pmm.gBitmapSize := Nat.lt_of_le_of_lt (Nat.le_add_right ..) next.below
  rcases pmm.allocBlock_cases with ⟨full, _⟩ | ⟨lowest, _, unused, first, taken⟩
  · simp [full block below] at free
  · obtain before | rfl | behind := Nat.lt_trichotomy lowest block
    · simp [next.minimal lowest before] at unused
    · exact taken
    · simp [first block behind] at free

theorem NextFree.allocBlock {count : Nat} (next : pmm.NextFree block (count + 1)) :
    pmm.allocBlock.2.NextFree (block + 1) count := by
  rw [next.taken]
  constructor
  · intro lower before
    rw [isBlockUsed_markBlockUsed]
    by_cases last : lower = block
    · simp [last]
    · simp [next.minimal lower (by omega)]
  · intro other lower upper
    rw [isBlockUsed_markBlockUsed, decide_eq_false (by omega), Bool.false_or, next.unused other (by omega) (by omega)]
  · rw [gBitmapSize_markBlockUsed]
    have room := next.below
    omega

/-- A block that is free at some point of a run was free at its start. -/
theorem Reachable.free_at_start {state : Tracked} (reserved : pmm.isBlockUsed 0 = true)
    (reached : Reachable pmm state) (below : block < state.pmm.gBitmapSize)
    (unused : state.pmm.isBlockUsed block = false) :
    block < pmm.gBitmapSize ∧ pmm.isBlockUsed block = false := by
  have accounted := reached.accounted reserved
  have inside : block < pmm.gBitmapSize := accounted.size ▸ below
  refine ⟨inside, ?_⟩
  by_contra used
  have held := (accounted.owned.used_iff block).mpr (.inl ⟨inside, Bool.not_eq_false _ ▸ used⟩)
  rw [held.2] at unused
  simp at unused

end Pmm

namespace Machine

variable {machine : Machine} {virtualAddr frame : Word} {block : Nat}

/-- Both windows together cover the frames below 0x500000 and no others. -/
theorem Windows.frame_lt (windows : machine.Windows) (inside : (getPageDirIndex virtualAddr).toNat < 1023)
    (found : machine.frameOf virtualAddr = some frame) : frame.toNat / 4096 < 0x500 := by
  have aligned := frameOf_mod found
  have offset := offset_toNat virtualAddr
  have target := translate_eq_frameOf machine virtualAddr
  rw [found, Option.map_some] at target
  have place : (frame + (virtualAddr &&& 0xFFF)).toNat = frame.toNat + virtualAddr.toNat % 4096 := by
    rw [BitVec.toNat_add, offset]
    omega
  rw [getPageDirIndex_toNat] at inside
  by_cases low : virtualAddr.toNat < 0x400000
  · have same := Option.some.inj (target.symm.trans (windows.identity _ low))
    rw [same] at place
    omega
  · by_cases high : 0xC0000000 ≤ virtualAddr.toNat ∧ virtualAddr.toNat < 0xC0400000
    · have same := Option.some.inj (target.symm.trans (windows.kernel _ high.1 high.2))
      rw [same, BitVec.toNat_add, BitVec.toNat_sub, show kernelLoadAddr.toNat = 0x100000 from rfl,
        show kernelVirtualAddr.toNat = 0xC0000000 from rfl] at place
      omega
    · have absent := windows.others virtualAddr (by omega) (by omega) high
      rw [absent] at target
      simp at target

theorem frameOf_of_translate (aligned : virtualAddr.toNat % 4096 = 0)
    (found : machine.translate virtualAddr = some frame) : machine.frameOf virtualAddr = some frame := by
  have offset : virtualAddr &&& 0xFFF = 0 := BitVec.eq_of_toNat_eq ((offset_toNat virtualAddr).trans aligned)
  rw [translate_eq_frameOf, offset] at found
  obtain ⟨other, walked, same⟩ := Option.map_eq_some_iff.mp found
  rw [walked, ← same]
  exact congrArg some (BitVec.add_zero other).symm

theorem Windows.reaches (windows : machine.Windows) (low : block < 0x500) :
    ∃ virtualAddr : Word, (getPageDirIndex virtualAddr).toNat < 1023 ∧
      machine.frameOf virtualAddr = some (Pmm.blockAddress block) := by
  have address : (Pmm.blockAddress block).toNat = block * 4096 := by
    rw [Pmm.blockAddress, bitmapBlockSize, BitVec.toNat_ofNat, Nat.mod_eq_of_lt (by omega)]
  by_cases first : block < 0x400
  · have found := windows.identity (Pmm.blockAddress block) (by omega)
    refine ⟨_, ?_, frameOf_of_translate (by omega) found⟩
    rw [getPageDirIndex_toNat]
    omega
  · -- The kernel's window starts with frame 0x100000.
    have place : (BitVec.ofNat 32 (0xC0000000 + (block - 0x100) * 4096)).toNat =
        0xC0000000 + (block - 0x100) * 4096 := by
      rw [BitVec.toNat_ofNat, Nat.mod_eq_of_lt (by omega)]
    have found := windows.kernel (BitVec.ofNat 32 (0xC0000000 + (block - 0x100) * 4096)) (by omega) (by omega)
    have frame : BitVec.ofNat 32 (0xC0000000 + (block - 0x100) * 4096) - kernelVirtualAddr + kernelLoadAddr =
        Pmm.blockAddress block := by
      apply BitVec.eq_of_toNat_eq
      rw [BitVec.toNat_add, BitVec.toNat_sub, place, address, show kernelLoadAddr.toNat = 0x100000 from rfl,
        show kernelVirtualAddr.toNat = 0xC0000000 from rfl]
      omega
    rw [frame] at found
    refine ⟨_, ?_, frameOf_of_translate (by omega) found⟩
    rw [getPageDirIndex_toNat, place]
    omega

end Machine

namespace Kernel

open Machine

/-- `start` up to and including `initialize_paging`. The boot loader hands over
`memory` with its tables in it; `bitmap` is what stands at `__end`. -/
def startPaging (bitmap : WordBits 32) (memory : ByteMemory) (entries : List E820MemoryMapEntry)
    (bitmapAddr : Word) : Option Machine :=
  Machine.initializePaging (Stage2.machine memory
    (Pmm.initializePhysicalMemoryManager bitmap entries bitmapAddr Pmm.kernelReservedRegions))

/-- However frames are taken and given back from here on, `alloc_block` never
returns one that a page outside the recursive window is on already. -/
def HandsOutFresh (machine : Machine) : Prop :=
  ∀ state, Pmm.Reachable machine.pmm state → state.pmm.allocBlock.1 ≠ 0 →
    ∀ virtualAddr : Word, (getPageDirIndex virtualAddr).toNat < 1023 →
      machine.frameOf virtualAddr ≠ some state.pmm.allocBlock.1

/-- A block that the map releases and neither the bitmap nor `start` reserves. -/
def LeftFree (entries : List E820MemoryMapEntry) (bitmapAddr : Word) (block : Nat) : Prop :=
  block < Pmm.calculateBitmapSize entries ∧ 0x400 < block ∧ Pmm.Released entries block ∧
    block ∉ Pmm.bitmapMarked entries bitmapAddr

instance (entries : List E820MemoryMapEntry) (bitmapAddr : Word) (block : Nat) :
    Decidable (LeftFree entries bitmapAddr block) := inferInstanceAs (Decidable (_ ∧ _))

variable {machine : Machine} {bitmap : WordBits 32} {memory : ByteMemory} {entries : List E820MemoryMapEntry}
  {bitmapAddr : Word} {block : Nat}

/-- Rounding up adds block 0x400 to the four megabytes. -/
theorem kernelReservedRegions_marked :
    (∀ region ∈ Pmm.kernelReservedRegions, block ∉ region.marked) ↔ 0x400 < block := by
  simp only [Pmm.kernelReservedRegions, List.mem_singleton, forall_eq]
  change ¬ (0 ≤ block ∧ block < 0 + 0x401) ↔ _
  omega

theorem initialized_reserved (low : block ≤ 0x400) :
    (Pmm.initializePhysicalMemoryManager bitmap entries bitmapAddr Pmm.kernelReservedRegions).isBlockUsed block =
      true := by
  by_contra free
  rw [Bool.not_eq_true, Pmm.initializePhysicalMemoryManager, Pmm.foldl_markReserved_free,
    kernelReservedRegions_marked] at free
  omega

theorem initialized_freeBelow (bound : Nat) :
    (Pmm.initializePhysicalMemoryManager bitmap entries bitmapAddr Pmm.kernelReservedRegions).freeBelow bound =
      {block ∈ Finset.range bound | LeftFree entries bitmapAddr block} := by
  ext block
  rw [Pmm.mem_freeBelow, Finset.mem_filter, Finset.mem_range, LeftFree, Pmm.gBitmapSize_initialized]
  refine and_congr_right fun _ => and_congr_right fun below => ?_
  rw [Pmm.initialize_free bitmap bitmapAddr Pmm.kernelReservedRegions below, kernelReservedRegions_marked]
  constructor
  · rintro ⟨_, released, notBitmap, above⟩
    exact ⟨above, released, notBitmap⟩
  · rintro ⟨above, released, notBitmap⟩
    exact ⟨by omega, released, notBitmap, above⟩

theorem handsOutFresh_of_full (reserved : machine.pmm.isBlockUsed 0 = true)
    (full : machine.pmm.getNumFreeBlocks = 0) : HandsOutFresh machine := by
  intro state reached nonnull
  obtain ⟨block, below, unused⟩ := Pmm.allocBlock_nonnull nonnull
  have positive := Pmm.getNumFreeBlocks_pos.mpr ⟨block, reached.free_at_start reserved below unused⟩
  omega

/-- With both windows in place, fresh frames are those from 0x500000 on. -/
theorem handsOutFresh_iff (windows : machine.Windows) (reserved : machine.pmm.isBlockUsed 0 = true) :
    HandsOutFresh machine ↔ machine.pmm.freeBelow 0x500 = ∅ := by
  rw [Pmm.freeBelow_eq_empty]
  constructor
  · intro fresh block below unused
    rcases machine.pmm.allocBlock_cases with ⟨full, _⟩ | ⟨lowest, lowestBelow, _, minimal, taken⟩
    · simp [full block below] at unused
    · -- If there is a free block below 0x500000, the lowest one is handed out next.
      by_contra low
      have first : lowest ≤ block := by
        by_contra behind
        simp [minimal block (Nat.lt_of_not_le behind)] at unused
      have nonnull : machine.pmm.allocBlock.1 ≠ 0 := Pmm.allocBlock_ne_zero reserved ⟨block, below, unused⟩
      obtain ⟨virtualAddr, inside, reaches⟩ := windows.reaches (show lowest < 0x500 by omega)
      refine fresh ⟨machine.pmm, []⟩ .start nonnull virtualAddr inside ?_
      rw [taken]
      exact reaches
  · intro high state reached nonnull virtualAddr inside reaches
    rcases state.pmm.allocBlock_cases with ⟨_, taken⟩ | ⟨block, below, unused, _, taken⟩
    · rw [taken] at nonnull
      exact nonnull rfl
    · rw [taken] at reaches
      have low : (Pmm.blockAddress block).toNat / bitmapBlockSize < 0x500 := windows.frame_lt inside reaches
      rw [Pmm.blockAddress_div below] at low
      obtain ⟨startBelow, startUnused⟩ := reached.free_at_start reserved below unused
      have above := high block startBelow startUnused
      omega

/-- `initialize_paging` takes the four lowest free blocks. What `start` has not
reserved of the kernel's window must not hold more than these. -/
theorem handed_out_fresh_iff (bitmap : WordBits 32) (memory : ByteMemory) (entries : List E820MemoryMapEntry)
    (bitmapAddr : Word) :
    (∀ machine, startPaging bitmap memory entries bitmapAddr = some machine → HandsOutFresh machine) ↔
      {block ∈ Finset.range 0x500 | LeftFree entries bitmapAddr block}.card ≤ 4 := by
  rw [← @initialized_freeBelow bitmap entries bitmapAddr 0x500]
  unfold startPaging
  have reserved := fun block => @initialized_reserved bitmap entries bitmapAddr block
  generalize Pmm.initializePhysicalMemoryManager bitmap entries bitmapAddr Pmm.kernelReservedRegions = pmm at *
  by_cases two : 2 ≤ pmm.getNumFreeBlocks
  · obtain ⟨machine, run, taken, tables⟩ := @initializePaging_returns memory pmm
      (fun block low => reserved block (by omega)) two
    have zero : machine.pmm.isBlockUsed 0 = true := by
      rw [taken]
      exact Pmm.allocBlock_used (Pmm.allocBlock_used (Pmm.allocBlock_used (Pmm.allocBlock_used
        (reserved 0 (by decide)))))
    have left : (machine.pmm.freeBelow 0x500).card = (pmm.freeBelow 0x500).card - 4 := by
      rw [taken, Pmm.card_freeBelow_allocBlock, Pmm.card_freeBelow_allocBlock, Pmm.card_freeBelow_allocBlock,
        Pmm.card_freeBelow_allocBlock]
      omega
    have only : (∀ after, initializePaging (Stage2.machine memory pmm) = some after → HandsOutFresh after) ↔
        HandsOutFresh machine := by
      rw [run]
      exact ⟨fun all => all machine rfl, fun fresh after same => Option.some.inj same ▸ fresh⟩
    rw [only]
    rcases tables with ⟨few, _⟩ | ⟨identity, kernel, three⟩
    · -- Nothing is left to hand out.
      have full : machine.pmm.getNumFreeBlocks = 0 := by
        rw [taken, Pmm.getNumFreeBlocks_allocBlock, Pmm.getNumFreeBlocks_allocBlock, Pmm.getNumFreeBlocks_allocBlock,
          Pmm.getNumFreeBlocks_allocBlock]
        omega
      rw [Pmm.freeBelow_of_full full, Finset.card_empty] at left
      exact iff_of_true (handsOutFresh_of_full zero full) (by omega)
    · rw [handsOutFresh_iff three.windows zero, ← Finset.card_eq_zero, left]
      omega
  · have spent : pmm.allocBlock.2.getNumFreeBlocks = 0 := by
      rw [Pmm.getNumFreeBlocks_allocBlock]
      omega
    have left := @Pmm.card_freeBelow_allocBlock pmm 0x500
    rw [Pmm.freeBelow_of_full spent, Finset.card_empty] at left
    refine iff_of_true (fun machine run => ?_) (by omega)
    rw [initializePaging_eq] at run
    obtain ⟨⟨directory, built⟩, building, switched⟩ := Option.map_eq_some_iff.mp run
    obtain ⟨null, full⟩ := buildTables_exhausted (show (Stage2.machine memory pmm).pmm.getNumFreeBlocks < 2 from
      Nat.lt_of_not_le two) building
    rw [null, switchCurrentPageDirectory, if_pos rfl] at switched
    rw [← switched]
    exact handsOutFresh_of_full ((buildTables_onlyTakes building).used 0 (reserved 0 (by decide))) full

/-- A machine with 128 MiB, of which the firmware reports the part from 1 MiB on. -/
def upperMemory : List E820MemoryMapEntry := [{ baseAddr := 0x100000, length := 0x7F00000, type := e820Usable }]

/-- `initialize_paging` takes the frames 0x401000 to 0x404000. The next call of
`alloc_block` returns 0x405000, which the kernel's window maps at 0xC0305000. -/
theorem upperMemory_alias : ∃ machine,
    startPaging (fun _ => 0) (fun _ => 0) upperMemory 0xC0010000 = some machine ∧
      machine.pmm.allocBlock.1 = 0x405000 ∧ machine.frameOf 0xC0305000 = some 0x405000 ∧
      ¬ HandsOutFresh machine := by
  have start : (Pmm.initializePhysicalMemoryManager (fun _ => 0) upperMemory 0xC0010000
      Pmm.kernelReservedRegions).NextFree 0x401 4 := by
    have left : ∀ block ≤ 0x405, 0x401 ≤ block → LeftFree upperMemory 0xC0010000 block := by decide +kernel
    refine ⟨fun lower before => initialized_reserved (by omega), fun block lower upper => ?_, ?_⟩
    · obtain ⟨below, above, released, notBitmap⟩ := left block upper lower
      exact (Pmm.initialize_free _ _ _ below).mpr
        ⟨by omega, released, notBitmap, kernelReservedRegions_marked.mpr above⟩
    · rw [Pmm.gBitmapSize_initialized]
      decide
  unfold startPaging
  generalize Pmm.initializePhysicalMemoryManager (fun _ => 0) upperMemory 0xC0010000 Pmm.kernelReservedRegions =
    pmm at *
  have last := start.allocBlock.allocBlock.allocBlock.allocBlock
  have more : 4 < pmm.getNumFreeBlocks := by
    have positive := Pmm.getNumFreeBlocks_pos.mpr ⟨_, last.below, last.unused _ (Nat.le_refl _) (Nat.le_refl _)⟩
    rw [Pmm.getNumFreeBlocks_allocBlock, Pmm.getNumFreeBlocks_allocBlock, Pmm.getNumFreeBlocks_allocBlock,
      Pmm.getNumFreeBlocks_allocBlock] at positive
    omega
  obtain ⟨machine, run, taken, ⟨few, _⟩ | ⟨identity, kernel, three⟩⟩ := @initializePaging_returns (fun _ => 0) pmm
    (fun block low => start.minimal block (by omega)) (by omega)
  · omega
  have next : machine.pmm.allocBlock.1 = 0x405000 := by
    rw [taken, last.taken]
    exact (by decide : Pmm.blockAddress 0x405 = 0x405000)
  have reached := frameOf_of_translate (by decide) (three.windows.kernel 0xC0305000 (by decide) (by decide))
  rw [show (0xC0305000 : Word) - kernelVirtualAddr + kernelLoadAddr = 0x405000 by decide] at reached
  have nonnull : machine.pmm.allocBlock.1 ≠ 0 := by
    rw [next]
    decide
  refine ⟨machine, run, next, reached, fun fresh => ?_⟩
  refine fresh ⟨machine.pmm, []⟩ .start nonnull 0xC0305000 (by decide) ?_
  rw [reached, next]

end Kernel

end ScratchOs
