import Mathlib.Data.List.Induction
import Mathlib.Data.Set.Lattice
import Mathlib.Order.CompletePartialOrder
import ScratchOs.Pmm.Bitmap

namespace ScratchOs

open Data

/-- One entry of the firmware's memory map. The `ascii` word of the source is never read. -/
@[ext] structure E820MemoryMapEntry where
  baseAddr : BitVec 64
  length : BitVec 64
  type : Word

def e820Usable : Word := 1

structure MemoryRegion where
  startAddress : Word
  length : Word

namespace E820MemoryMapEntry

def Usable (entry : E820MemoryMapEntry) : Prop := entry.type = e820Usable

instance (entry : E820MemoryMapEntry) : Decidable entry.Usable :=
  inferInstanceAs (Decidable (entry.type = e820Usable))

/-- The bytes an entry describes, at their full 64-bit addresses. -/
def bytes (entry : E820MemoryMapEntry) : Set Nat :=
  { place | entry.baseAddr.toNat ≤ place ∧ place < entry.baseAddr.toNat + entry.length.toNat }

/-- The blocks the marking loop visits for an entry: base and length are first
cut to 32 bits by the conversions to `uintptr_t` and `uint32_t`. -/
def marked (entry : E820MemoryMapEntry) : Set Nat :=
  Pmm.regionBlocks (entry.baseAddr.setWidth 32) (entry.length.setWidth 32)

instance (entry : E820MemoryMapEntry) (block : Nat) : Decidable (block ∈ entry.marked) :=
  inferInstanceAs (Decidable (block ∈ Pmm.regionBlocks _ _))

/-- The block just past the last whole block of an entry. -/
def endBlock (entry : E820MemoryMapEntry) : Nat :=
  (entry.baseAddr.toNat + entry.length.toNat) / bitmapBlockSize

def HasWholeBlock (entry : E820MemoryMapEntry) : Prop :=
  (entry.baseAddr.toNat + (bitmapBlockSize - 1)) / bitmapBlockSize < entry.endBlock

end E820MemoryMapEntry

namespace MemoryRegion

def bytes (region : MemoryRegion) : Set Nat :=
  { place | region.startAddress.toNat ≤ place ∧
    place < region.startAddress.toNat + region.length.toNat }

def marked (region : MemoryRegion) : Set Nat := Pmm.regionBlocks region.startAddress region.length

instance (region : MemoryRegion) (block : Nat) : Decidable (block ∈ region.marked) :=
  inferInstanceAs (Decidable (block ∈ Pmm.regionBlocks _ _))

end MemoryRegion

namespace Pmm

/-- The sum runs in 32 bits although the lengths have 64. -/
def calculateBitmapSize (entries : List E820MemoryMapEntry) : Nat :=
  (entries.foldl (fun bitmapSize entry => bitmapSize + entry.length.setWidth 32) (0 : Word)).toNat /
    bitmapBlockSize

theorem calculateBitmapSize_le (entries : List E820MemoryMapEntry) :
    calculateBitmapSize entries ≤ 2 ^ 20 - 1 := by
  unfold calculateBitmapSize bitmapBlockSize
  omega

def markEntry (pmm : Pmm) (entry : E820MemoryMapEntry) : Pmm :=
  if entry.Usable then
    pmm.markPhysicalMemoryRegionFree (entry.baseAddr.setWidth 32) (entry.length.setWidth 32)
  else pmm.markPhysicalMemoryRegionUsed (entry.baseAddr.setWidth 32) (entry.length.setWidth 32)

def markReserved (pmm : Pmm) (region : MemoryRegion) : Pmm :=
  pmm.markPhysicalMemoryRegionUsed region.startAddress region.length

/-- The bitmap right after `memset`, which writes `g_bitmap_size` bytes of ones. -/
def blank (memory : WordBits 32) (entries : List E820MemoryMapEntry) : Pmm where
  words := memory.fill 0xff#8 0 (calculateBitmapSize entries)
  gBitmapSize := calculateBitmapSize entries
  gBitmapSize_le := calculateBitmapSize_le entries

/-- `memory` is whatever stood behind `bitmap_addr` before. -/
def initializePhysicalMemoryManager (memory : WordBits 32) (entries : List E820MemoryMapEntry)
    (bitmapAddr : Word) (reservedRegions : List MemoryRegion) : Pmm :=
  let pmm := entries.foldl markEntry (blank memory entries)
  let pmm := pmm.markPhysicalMemoryRegionUsed bitmapAddr (BitVec.ofNat 32 pmm.gBitmapSize)
  reservedRegions.foldl markReserved pmm

variable {memory : WordBits 32} {entries : List E820MemoryMapEntry} {bitmapAddr : Word}
  {reservedRegions : List MemoryRegion} {block : Nat}

@[simp] theorem gBitmapSize_foldl_markEntry (pmm : Pmm) (entries : List E820MemoryMapEntry) :
    (entries.foldl markEntry pmm).gBitmapSize = pmm.gBitmapSize := by
  induction entries generalizing pmm with
  | nil => rfl
  | cons entry rest ih =>
      rw [List.foldl_cons, ih, markEntry]
      split <;> rfl

@[simp] theorem gBitmapSize_foldl_markReserved (pmm : Pmm) (regions : List MemoryRegion) :
    (regions.foldl markReserved pmm).gBitmapSize = pmm.gBitmapSize := by
  induction regions generalizing pmm with
  | nil => rfl
  | cons region rest ih =>
      rw [List.foldl_cons, ih]
      rfl

@[simp] theorem gBitmapSize_initialized :
    (initializePhysicalMemoryManager memory entries bitmapAddr reservedRegions).gBitmapSize =
      calculateBitmapSize entries := by
  simp [initializePhysicalMemoryManager, blank]

theorem isBlockUsed_blank (memory : WordBits 32) (below : block < calculateBitmapSize entries) :
    (blank memory entries).isBlockUsed block = true := by
  have inside : 0 ≤ block / 8 ∧ block / 8 < 0 + calculateBitmapSize entries := by omega
  have ones : ∀ bit < 8, (0xff#8).getLsbD bit = true := by decide
  have read := @WordBits.test_fill 32 4 (by decide) (by decide) memory 0xff#8 0
    (calculateBitmapSize entries) block
  rw [if_pos inside, ones _ (Nat.mod_lt _ (by decide))] at read
  exact read

/-- The map leaves `block` usable: some usable entry's loop reaches it and no
later entry of another type does. -/
def Released (entries : List E820MemoryMapEntry) (block : Nat) : Prop :=
  ∃ before entry after, entries = before ++ entry :: after ∧ entry.Usable ∧ block ∈ entry.marked ∧
    ∀ later ∈ after, ¬ later.Usable → block ∉ later.marked

theorem not_released_nil : ¬ Released [] block := by
  rintro ⟨before, entry, after, same, _⟩
  simp at same

/-- The last entry decides about the blocks its loop reaches. -/
theorem released_append_singleton {entry : E820MemoryMapEntry} :
    Released (entries ++ [entry]) block ↔
      (entry.Usable ∧ block ∈ entry.marked) ∨
      (Released entries block ∧ (entry.Usable ∨ block ∉ entry.marked)) := by
  constructor
  · rintro ⟨before, chosen, after, same, usable, inside, later⟩
    rcases List.eq_nil_or_concat after with rfl | ⟨rest, last, rfl⟩
    · obtain ⟨_, back⟩ := List.append_inj' same rfl
      cases back
      exact .inl ⟨usable, inside⟩
    · have split : entries ++ [entry] = (before ++ chosen :: rest) ++ [last] := by simpa using same
      obtain ⟨front, back⟩ := List.append_inj' split rfl
      cases back
      refine .inr ⟨⟨before, chosen, rest, front, usable, inside, ?_⟩, ?_⟩
      · exact fun other member => later other (by simp [member])
      · by_cases kind : entry.Usable
        · exact .inl kind
        · exact .inr (later entry (by simp) kind)
  · rintro (⟨usable, inside⟩ | ⟨⟨before, chosen, after, rfl, usable, inside, later⟩, kept⟩)
    · exact ⟨entries, entry, [], rfl, usable, inside, by simp⟩
    · refine ⟨before, chosen, after ++ [entry], by simp, usable, inside, ?_⟩
      intro other member
      rcases List.mem_append.mp member with member | member
      · exact later other member
      · cases List.mem_singleton.mp member
        exact fun kind => kept.resolve_left kind

theorem released_iff_foldl : Released entries block ↔
    entries.foldl (fun free entry => if block ∈ entry.marked then decide entry.Usable else free) false = true := by
  induction entries using List.reverseRecOn with
  | nil => simp [not_released_nil]
  | append_singleton entries entry ih =>
      rw [released_append_singleton, ih, List.foldl_append, List.foldl_cons, List.foldl_nil]
      by_cases inside : block ∈ entry.marked <;> by_cases usable : entry.Usable <;> simp [inside, usable]

instance : Decidable (Released entries block) := decidable_of_iff _ released_iff_foldl.symm

theorem isBlockUsed_markEntry (pmm : Pmm) (entry : E820MemoryMapEntry) (nonzero : block ≠ 0) :
    (pmm.markEntry entry).isBlockUsed block = false ↔
      (entry.Usable ∧ block ∈ entry.marked) ∨
      (pmm.isBlockUsed block = false ∧ (entry.Usable ∨ block ∉ entry.marked)) := by
  unfold markEntry
  split
  · rename_i usable
    simp only [isBlockUsed_regionFree, nonzero, decide_false, Bool.false_or, usable, true_and, true_or,
      and_true, Bool.and_eq_false_iff, Bool.not_eq_false', decide_eq_true_eq]
    rfl
  · rename_i unusable
    simp only [isBlockUsed_regionUsed, unusable, false_and, false_or, Bool.or_eq_false_iff,
      decide_eq_false_iff_not]
    exact and_comm

/-- After the loop over the map a block that `memset` had marked used is free
exactly when the map released it. -/
theorem foldl_markEntry_free (pmm : Pmm) (used : pmm.isBlockUsed block = true) (nonzero : block ≠ 0) :
    (entries.foldl markEntry pmm).isBlockUsed block = false ↔ Released entries block := by
  induction entries using List.reverseRecOn with
  | nil => simp [used, not_released_nil]
  | append_singleton entries entry ih =>
      rw [List.foldl_append, List.foldl_cons, List.foldl_nil, isBlockUsed_markEntry _ _ nonzero, ih,
        released_append_singleton]

theorem foldl_markEntry_zero (pmm : Pmm) (used : pmm.isBlockUsed 0 = true) :
    (entries.foldl markEntry pmm).isBlockUsed 0 = true := by
  induction entries generalizing pmm with
  | nil => exact used
  | cons entry rest ih =>
      rw [List.foldl_cons]
      apply ih
      unfold markEntry
      split <;> simp [used]

theorem foldl_markReserved_free (pmm : Pmm) (regions : List MemoryRegion) :
    (regions.foldl markReserved pmm).isBlockUsed block = false ↔
      pmm.isBlockUsed block = false ∧ ∀ region ∈ regions, block ∉ region.marked := by
  induction regions generalizing pmm with
  | nil => simp
  | cons region rest ih =>
      rw [List.foldl_cons, ih, markReserved, isBlockUsed_regionUsed, Bool.or_eq_false_iff,
        decide_eq_false_iff_not, List.forall_mem_cons, and_comm (b := pmm.isBlockUsed block = false),
        and_assoc]
      rfl

/-- The bitmap's own storage as `initialize_physical_memory_manager` reserves
it: `g_bitmap_size` bytes from the address it was given. -/
def bitmapMarked (entries : List E820MemoryMapEntry) (bitmapAddr : Word) : Set Nat :=
  regionBlocks bitmapAddr (BitVec.ofNat 32 (calculateBitmapSize entries))

instance : Decidable (block ∈ bitmapMarked entries bitmapAddr) :=
  inferInstanceAs (Decidable (block ∈ regionBlocks _ _))

/-- Which blocks initialisation leaves free, in terms of its arguments only. -/
theorem initialize_free (memory : WordBits 32) (bitmapAddr : Word) (reservedRegions : List MemoryRegion)
    (below : block < calculateBitmapSize entries) :
    (initializePhysicalMemoryManager memory entries bitmapAddr reservedRegions).isBlockUsed block = false ↔
      block ≠ 0 ∧ Released entries block ∧ block ∉ bitmapMarked entries bitmapAddr ∧
      ∀ region ∈ reservedRegions, block ∉ region.marked := by
  have used := isBlockUsed_blank memory below
  simp only [initializePhysicalMemoryManager, foldl_markReserved_free, isBlockUsed_regionUsed,
    Bool.or_eq_false_iff, decide_eq_false_iff_not, gBitmapSize_foldl_markEntry]
  by_cases zero : block = 0
  · subst zero
    simp [foldl_markEntry_zero _ used]
  · rw [foldl_markEntry_free _ used zero]
    change ((block ∉ bitmapMarked entries bitmapAddr ∧ _) ∧ _) ↔ _
    tauto

def blockBytes (block : Nat) : Set Nat :=
  { place | block * bitmapBlockSize ≤ place ∧ place < (block + 1) * bitmapBlockSize }

/-- The regions `start` in `kernel/kernel.c` asks to keep. -/
def kernelReservedRegions : List MemoryRegion := [{ startAddress := 0, length := 0x400000 }]

/-! The single-bit writes of initialisation, in order. -/

abbrev Mark := Nat × Bool

def applyMark (pmm : Pmm) (mark : Mark) : Pmm :=
  if mark.2 then pmm.markBlockUsed mark.1 else pmm.markBlockFree mark.1

def regionMarks (base size : Word) (used : Bool) : List Mark :=
  (List.range' (base.toNat / bitmapBlockSize) (calculateNumBlocks size)).map fun block => (block, used)

def entryMarks (entry : E820MemoryMapEntry) : List Mark :=
  if entry.Usable then
    regionMarks (entry.baseAddr.setWidth 32) (entry.length.setWidth 32) false ++ [(0, true)]
  else regionMarks (entry.baseAddr.setWidth 32) (entry.length.setWidth 32) true

def initializationMarks (entries : List E820MemoryMapEntry) (bitmapAddr : Word)
    (reservedRegions : List MemoryRegion) : List Mark :=
  entries.flatMap entryMarks ++
    regionMarks bitmapAddr (BitVec.ofNat 32 (calculateBitmapSize entries)) true ++
    reservedRegions.flatMap fun region => regionMarks region.startAddress region.length true

theorem foldl_regionMarks_used (pmm : Pmm) (base size : Word) :
    (regionMarks base size true).foldl applyMark pmm = pmm.markPhysicalMemoryRegionUsed base size := by
  unfold regionMarks markPhysicalMemoryRegionUsed
  generalize base.toNat / bitmapBlockSize = start
  induction calculateNumBlocks size generalizing pmm start with
  | zero => rfl
  | succ count ih =>
      rw [List.range'_succ, List.map_cons, List.foldl_cons, ih]
      rfl

theorem foldl_regionMarks_free (pmm : Pmm) (base size : Word) :
    (regionMarks base size false ++ [(0, true)]).foldl applyMark pmm =
      pmm.markPhysicalMemoryRegionFree base size := by
  unfold regionMarks markPhysicalMemoryRegionFree
  rw [List.foldl_append]
  generalize base.toNat / bitmapBlockSize = start
  induction calculateNumBlocks size generalizing pmm start with
  | zero => rfl
  | succ count ih =>
      rw [List.range'_succ, List.map_cons]
      exact ih (pmm.markBlockFree start) (start + 1)

theorem foldl_entryMarks (pmm : Pmm) (entry : E820MemoryMapEntry) :
    (entryMarks entry).foldl applyMark pmm = pmm.markEntry entry := by
  unfold entryMarks markEntry
  split
  · exact foldl_regionMarks_free ..
  · exact foldl_regionMarks_used ..

/-- Initialisation is `memset` followed by exactly these single-bit writes. -/
theorem initialize_eq_marks (memory : WordBits 32) (entries : List E820MemoryMapEntry)
    (bitmapAddr : Word) (reservedRegions : List MemoryRegion) :
    initializePhysicalMemoryManager memory entries bitmapAddr reservedRegions =
      (initializationMarks entries bitmapAddr reservedRegions).foldl applyMark (blank memory entries) := by
  have size := gBitmapSize_foldl_markEntry (blank memory entries) entries
  simp only [initializationMarks, List.foldl_append, List.foldl_flatMap, foldl_entryMarks,
    foldl_regionMarks_used, initializePhysicalMemoryManager, size]
  rfl

theorem regionMarks_below {base size : Word} {used : Bool} {bound : Nat} :
    (∀ mark ∈ regionMarks base size used, mark.1 < bound) ↔
      base.toNat / bitmapBlockSize + size.toNat / bitmapBlockSize < bound := by
  simp only [regionMarks, List.forall_mem_map, List.mem_range'_1, calculateNumBlocks]
  constructor
  · intro below
    exact below _ ⟨Nat.le_add_right .., by omega⟩
  · rintro last block ⟨_, upper⟩
    omega

theorem entryMarks_below {entry : E820MemoryMapEntry} {bound : Nat} :
    (∀ mark ∈ entryMarks entry, mark.1 < bound) ↔
      (entry.baseAddr.setWidth 32).toNat / bitmapBlockSize +
        (entry.length.setWidth 32).toNat / bitmapBlockSize < bound := by
  unfold entryMarks
  split
  · rw [List.forall_mem_append, regionMarks_below]
    simp only [List.mem_singleton, forall_eq, and_iff_left_iff_imp]
    exact Nat.zero_lt_of_lt
  · exact regionMarks_below

theorem whole_blocks_below {entry : E820MemoryMapEntry} {bound : Nat} :
    (∀ block, blockBytes block ⊆ entry.bytes → block < bound) ↔
      (entry.HasWholeBlock → entry.endBlock ≤ bound) := by
  unfold E820MemoryMapEntry.HasWholeBlock E820MemoryMapEntry.endBlock
  simp only [blockBytes, E820MemoryMapEntry.bytes, bitmapBlockSize]
  constructor
  · intro below whole
    have last := below ((entry.baseAddr.toNat + entry.length.toNat) / 4096 - 1) (by
      rintro place ⟨lower, upper⟩
      exact ⟨by omega, by omega⟩)
    omega
  · intro fits block within
    have first := within (a := block * 4096) ⟨by omega, by omega⟩
    have last := within (a := block * 4096 + 4095) ⟨by omega, by omega⟩
    have lower := first.1
    have upper := last.2
    have room := fits (by omega)
    omega

/-- What the arguments of initialisation must satisfy for all its writes to
stay inside the bitmap and all usable memory to be scanned: `g_bitmap_size` is
the sum of the map's lengths, the indices come from absolute addresses. -/
structure BitmapCovers (entries : List E820MemoryMapEntry) (bitmapAddr : Word)
    (reservedRegions : List MemoryRegion) : Prop where
  entriesFit : ∀ entry ∈ entries, (entry.baseAddr.setWidth 32).toNat / bitmapBlockSize +
    (entry.length.setWidth 32).toNat / bitmapBlockSize < calculateBitmapSize entries
  bitmapFits : bitmapAddr.toNat / bitmapBlockSize + calculateBitmapSize entries / bitmapBlockSize <
    calculateBitmapSize entries
  reservedFit : ∀ region ∈ reservedRegions, region.startAddress.toNat / bitmapBlockSize +
    region.length.toNat / bitmapBlockSize < calculateBitmapSize entries
  usableFits : ∀ entry ∈ entries, entry.Usable → entry.HasWholeBlock →
    entry.endBlock ≤ calculateBitmapSize entries

/-- Every bit initialisation writes lies below `g_bitmap_size`, and no whole
usable block is out of reach of `find_first_free_block`, exactly under
`BitmapCovers`. -/
theorem initialization_in_bounds_iff (memory : WordBits 32) (entries : List E820MemoryMapEntry)
    (bitmapAddr : Word) (reservedRegions : List MemoryRegion) :
    let pmm := initializePhysicalMemoryManager memory entries bitmapAddr reservedRegions
    ((∀ mark ∈ initializationMarks entries bitmapAddr reservedRegions, mark.1 < pmm.gBitmapSize) ∧
      (∀ entry ∈ entries, entry.Usable → ∀ block, blockBytes block ⊆ entry.bytes →
        block < pmm.gBitmapSize)) ↔
      BitmapCovers entries bitmapAddr reservedRegions := by
  have sizeWord : (BitVec.ofNat 32 (calculateBitmapSize entries)).toNat = calculateBitmapSize entries := by
    have bound := calculateBitmapSize_le entries
    rw [BitVec.toNat_ofNat, Nat.mod_eq_of_lt (by omega)]
  simp only [gBitmapSize_initialized, initializationMarks, List.forall_mem_append,
    List.forall_mem_flatMap, entryMarks_below, regionMarks_below, whole_blocks_below, sizeWord]
  constructor
  · rintro ⟨⟨⟨entriesFit, bitmapFits⟩, reservedFit⟩, usableFit⟩
    exact ⟨entriesFit, bitmapFits, reservedFit, usableFit⟩
  · rintro ⟨entriesFit, bitmapFits, reservedFit, usableFit⟩
    exact ⟨⟨⟨entriesFit, bitmapFits⟩, reservedFit⟩, usableFit⟩

/-- 128 MiB of memory from address 0, the smallest interesting map. -/
def flatMap128 : List E820MemoryMapEntry :=
  [{ baseAddr := 0, length := 0x8000000, type := e820Usable }]

/-- With the arguments of `start` the loop over the only entry already clears
bit `g_bitmap_size`, and reserving the bitmap sets bits near block 0xC0010. -/
theorem flatMap128_out_of_bounds :
    ¬ ((∀ mark ∈ initializationMarks flatMap128 0xC0010000 kernelReservedRegions,
        mark.1 < (initializePhysicalMemoryManager (fun _ => 0) flatMap128 0xC0010000
          kernelReservedRegions).gBitmapSize) ∧
      (∀ entry ∈ flatMap128, entry.Usable → ∀ block, blockBytes block ⊆ entry.bytes →
        block < (initializePhysicalMemoryManager (fun _ => 0) flatMap128 0xC0010000
          kernelReservedRegions).gBitmapSize)) := by
  rintro ⟨marks, _⟩
  simp only [gBitmapSize_initialized, initializationMarks, List.forall_mem_append,
    List.forall_mem_flatMap, entryMarks_below] at marks
  have last := marks.1.1 _ (List.mem_singleton_self _)
  revert last
  decide

end Pmm

end ScratchOs
