import ScratchOs.Paging.Pages

namespace ScratchOs

open Data

/-! `initialize_paging`, first of the boot loader and then of the kernel.

The boot loader builds its tables with paging off, at physical addresses. The
kernel builds its own through the boot loader's, at three pages it maps for the
purpose, and then switches to them. -/

def kernelLoadAddr : Word := 0x100000
def kernelVirtualAddr : Word := 0xC0000000
def pagesPerTable : Nat := 1024

namespace Stage2

def identityMapTableAddr : Word := 0x60000
def kernelMapTableAddr : Word := 0x62000
def pagingDirectoryAddr : Word := 0x64000

def fillTable (table flags : Word) : Nat → Word → Word → ByteMemory → ByteMemory
  | 0, _, _, memory => memory
  | left + 1, physicalAddress, virtualAddress, memory =>
      fillTable table flags left (physicalAddress + 4096) (virtualAddress + 4096)
        (memory.write32 (entryAddress table (getPageTableIndex virtualAddress))
          (setFlag (setAddr 0 physicalAddress) flags))

/-- The kernel's table is not cleared first; the identity map is, twice. -/
def initializePaging (memory : ByteMemory) : ByteMemory :=
  let memory := clearFrame memory pagingDirectoryAddr
  let memory := clearFrame memory identityMapTableAddr
  let memory := clearFrame memory identityMapTableAddr
  let memory := fillTable identityMapTableAddr ptePresent pagesPerTable 0 0 memory
  let memory := fillTable kernelMapTableAddr ptePresent pagesPerTable kernelLoadAddr kernelVirtualAddr memory
  let memory := memory.write32 (entryAddress pagingDirectoryAddr (getPageDirIndex 0))
    (setFlag (setFlag (setAddr 0 identityMapTableAddr) pdePresent) pdeReadWrite)
  let memory := memory.write32 (entryAddress pagingDirectoryAddr (getPageDirIndex kernelVirtualAddr))
    (setFlag (setFlag (setAddr 0 kernelMapTableAddr) pdePresent) pdeReadWrite)
  memory.write32 (entryAddress pagingDirectoryAddr 1023)
    (setFlag (setAddr 0 pagingDirectoryAddr) (pdePresent ||| pdeReadWrite))

/-- The machine the kernel starts on. -/
def machine (memory : ByteMemory) (pmm : Pmm) : Machine := ⟨initializePaging memory, pagingDirectoryAddr, pmm⟩

end Stage2

namespace Machine

/-- The common body of `allocate_page_directory` and `allocate_page_table`. -/
def allocatePage (pageVa : Word) (machine : Machine) : Option (Word × Machine) := do
  let pagePa := machine.allocBlock.1
  let machine := machine.allocBlock.2
  let (mapped, machine) ← mapAddress pageVa pagePa pteReadWrite machine
  if mapped then do
    let machine ← memset pageVa 0 pageTableSize machine
    some (pagePa, machine)
  else some (0, machine)

def allocatePageDirectory (pageDirectoryVa : Word) (machine : Machine) : Option (Word × Machine) :=
  allocatePage pageDirectoryVa machine

def allocatePageTable (pageTableVa : Word) (machine : Machine) : Option (Word × Machine) :=
  allocatePage pageTableVa machine

def switchCurrentPageDirectory (pageDirectoryPa : Word) (machine : Machine) : Machine :=
  if pageDirectoryPa = 0 then machine else { machine with cr3 := pageDirectoryPa }

def recursivelyMapPageDirectory (pageDirectoryPa pageDirectoryVa : Word) (machine : Machine) : Option Machine :=
  store32 (entryAddress pageDirectoryVa 1023) (setFlag (setAddr 0 pageDirectoryPa) (pdePresent ||| pdeReadWrite))
    machine

def fillTable (tableVa flags : Word) : Nat → Word → Word → Machine → Option Machine
  | 0, _, _, machine => some machine
  | left + 1, physicalAddr, virtualAddr, machine => do
      let machine ← store32 (entryAddress tableVa (getPageTableIndex virtualAddr))
        (setFlag (setAddr 0 physicalAddr) flags) machine
      fillTable tableVa flags left (physicalAddr + 4096) (virtualAddr + 4096) machine

def directoryVa : Word := 0x500000
def kernelMapVa : Word := 0x501000
def identityMapVa : Word := 0x502000

/-- The tables are filled, entered and switched to. -/
def installTables (pageDirectoryPa kernelMapPa identityMapPa : Word) (machine : Machine) : Option Machine := do
  let machine ← fillTable kernelMapVa (ptePresent ||| pteReadWrite) pagesPerTable kernelLoadAddr
    kernelVirtualAddr machine
  let machine ← fillTable identityMapVa ptePresent pagesPerTable 0 0 machine
  let machine ← store32 (entryAddress directoryVa (getPageDirIndex 0))
    (setFlag (setAddr 0 identityMapPa) pdePresent) machine
  let machine ← store32 (entryAddress directoryVa (getPageDirIndex kernelVirtualAddr))
    (setFlag (setAddr 0 kernelMapPa) (pdePresent ||| pdeReadWrite)) machine
  let machine ← recursivelyMapPageDirectory pageDirectoryPa directoryVa machine
  some (switchCurrentPageDirectory pageDirectoryPa machine)

/-- After the kernel's table the source checks the directory a second time, so
a missing frame for that table goes unnoticed. -/
def initializePaging (machine : Machine) : Option Machine := do
  let (pageDirectoryPa, machine) ← allocatePageDirectory directoryVa machine
  if pageDirectoryPa = 0 then some machine
  else do
    let (kernelMapPa, machine) ← allocatePageTable kernelMapVa machine
    if pageDirectoryPa = 0 then some machine
    else do
      let (identityMapPa, machine) ← allocatePageTable identityMapVa machine
      if identityMapPa = 0 then some machine
      else installTables pageDirectoryPa kernelMapPa identityMapPa machine

end Machine

/-! The entries the loops write. -/

variable {memory : ByteMemory} {table flags physicalAddr virtualAddr index : Word}

theorem getPageTableIndex_next (room : (getPageTableIndex virtualAddr).toNat + 1 < 1024) :
    (getPageTableIndex (virtualAddr + 4096)).toNat = (getPageTableIndex virtualAddr).toNat + 1 := by
  rw [getPageTableIndex_toNat] at room
  rw [getPageTableIndex_toNat, getPageTableIndex_toNat]
  bv_omega

theorem Stage2.fillTable_outside {left : Nat} (aligned : table.toNat % 4096 = 0) :
    Set.EqOn (Stage2.fillTable table flags left physicalAddr virtualAddr memory) memory (frameSpan table)ᶜ := by
  induction left generalizing physicalAddr virtualAddr memory with
  | zero => exact fun _ _ => rfl
  | succ left ih => exact ih.trans (write_entry_outside aligned (Machine.getPageTableIndex_lt virtualAddr))

/-- After the loop entry `first + k` names the frame `k` pages on. -/
theorem Stage2.fillTable_entry {left first : Nat} (aligned : table.toNat % 4096 = 0)
    (start : (getPageTableIndex virtualAddr).toNat = first) (room : first + left ≤ 1024)
    (within : index.toNat < 1024) :
    (Stage2.fillTable table flags left physicalAddr virtualAddr memory).read32 (entryAddress table index) =
      if first ≤ index.toNat ∧ index.toNat < first + left
      then setFlag (getAddr (physicalAddr + BitVec.ofNat 32 (4096 * (index.toNat - first)))) flags
      else memory.read32 (entryAddress table index) := by
  induction left generalizing physicalAddr virtualAddr memory first with
  | zero =>
      rw [if_neg (by omega)]
      rfl
  | succ left ih =>
      rw [Stage2.fillTable]
      by_cases last : left = 0
      · subst last
        rw [Stage2.fillTable, read_entry_write aligned (Machine.getPageTableIndex_lt virtualAddr) within]
        by_cases here : index = getPageTableIndex virtualAddr
        · rw [if_pos here, if_pos (by rw [here]; omega), here, start, Nat.sub_self, setAddr_zero]
          simp
        · have apart : index.toNat ≠ first := fun same => here (BitVec.eq_of_toNat_eq (same.trans start.symm))
          rw [if_neg here, if_neg (by omega)]
      · have next := @getPageTableIndex_next virtualAddr (by omega)
        rw [start] at next
        rw [ih next (by omega), read_entry_write aligned (Machine.getPageTableIndex_lt virtualAddr) within]
        by_cases here : index = getPageTableIndex virtualAddr
        · rw [if_neg (by rw [here]; omega), if_pos here, if_pos (by rw [here]; omega), here, start, Nat.sub_self,
            setAddr_zero]
          simp
        · have apart : index.toNat ≠ first := fun same => here (BitVec.eq_of_toNat_eq (same.trans start.symm))
          rw [if_neg here]
          by_cases later : first + 1 ≤ index.toNat ∧ index.toNat < first + 1 + left
          · rw [if_pos later, if_pos (by omega), BitVec.add_assoc]
            congr 3
            bv_omega
          · rw [if_neg later, if_neg (by omega)]

/-- A table filled from its first entry on, starting with frame `physicalAddr`. -/
def TableFilled (memory : ByteMemory) (table physicalAddr : Word) : Prop :=
  ∀ index : Word, index.toNat < 1024 →
    testFlag (memory.read32 (entryAddress table index)) ptePresent = true ∧
      getAddr (memory.read32 (entryAddress table index)) =
        getAddr (physicalAddr + BitVec.ofNat 32 (4096 * index.toNat))

theorem TableFilled.congr {memory' : ByteMemory} (filled : TableFilled memory table physicalAddr)
    (aligned : table.toNat % 4096 = 0) (same : Set.EqOn memory' memory (frameSpan table)) :
    TableFilled memory' table physicalAddr := by
  intro index within
  rw [read_entry_congr aligned within same]
  exact filled index within

theorem Stage2.fillTable_filled (aligned : table.toNat % 4096 = 0)
    (start : (getPageTableIndex virtualAddr).toNat = 0) (small : flags.toNat < 4096) :
    TableFilled (Stage2.fillTable table (ptePresent ||| flags) pagesPerTable physicalAddr virtualAddr memory) table
      physicalAddr := by
  intro index within
  have below : index.toNat < 0 + pagesPerTable := by rwa [Nat.zero_add, pagesPerTable]
  rw [Stage2.fillTable_entry aligned start (by decide) within, if_pos ⟨Nat.zero_le _, below⟩]
  exact ⟨testFlag_setFlag_present .., by rw [getAddr_setFlag (present_flags_lt small), Nat.sub_zero]⟩

namespace Machine

theorem PageStable.fillTable {machine : Machine} {frame : Word} {left : Nat}
    (stable : machine.PageStable table frame) (aligned : frame.toNat % 4096 = 0) :
    Machine.fillTable table flags left physicalAddr virtualAddr machine =
      some { machine with
        memory := Stage2.fillTable frame flags left physicalAddr virtualAddr machine.memory } := by
  induction left generalizing physicalAddr virtualAddr machine with
  | zero => rfl
  | succ left ih =>
      have within := getPageTableIndex_lt virtualAddr
      rw [Machine.fillTable, stable.store_entry within, Option.bind_eq_bind, Option.bind_some]
      exact ih (stable.congr (write_entry_outside aligned within))

/-- A directory with the identity map, the kernel's map and itself. -/
structure ThreeSlots (machine : Machine) (identity kernel : Word) : Prop where
  self : machine.SelfMapped
  identityPresent : machine.Present 0
  identityFrame : machine.tableFrame 0 = identity
  kernelPresent : machine.Present 768
  kernelFrame : machine.tableFrame 768 = kernel
  others : ∀ slot : Word, slot.toNat < 1024 → slot ≠ 0 → slot ≠ 768 → slot ≠ 1023 → machine.directoryEntry slot = 0
  identityFilled : TableFilled machine.memory identity 0
  kernelFilled : TableFilled machine.memory kernel kernelLoadAddr
  apart : identity ≠ kernel ∧ identity ≠ machine.directory ∧ kernel ≠ machine.directory

variable {machine : Machine} {identity kernel directory : Word}

namespace ThreeSlots

theorem cases (three : machine.ThreeSlots identity kernel) {slot : Word} (inside : slot.toNat < 1024)
    (present : machine.Present slot) :
    (slot = 0 ∧ machine.tableFrame slot = identity) ∨ (slot = 768 ∧ machine.tableFrame slot = kernel) ∨
      (slot = 1023 ∧ machine.tableFrame slot = machine.directory) := by
  by_cases first : slot = 0
  · exact .inl ⟨first, by rw [first, three.identityFrame]⟩
  by_cases second : slot = 768
  · exact .inr (.inl ⟨second, by rw [second, three.kernelFrame]⟩)
  by_cases last : slot = 1023
  · exact .inr (.inr ⟨last, by rw [last, tableFrame, three.self.address]⟩)
  · rw [Present, three.others slot inside first second last, testFlag_zero] at present
    simp at present

theorem tables (three : machine.ThreeSlots identity kernel)
    (identityUsed : machine.pmm.isBlockUsed (identity.toNat / 4096) = true)
    (kernelUsed : machine.pmm.isBlockUsed (kernel.toNat / 4096) = true)
    (directoryUsed : machine.pmm.isBlockUsed (machine.directory.toNat / 4096) = true) : machine.TablesSound := by
  obtain ⟨notKernel, notDirectory, kernelNotDirectory⟩ := three.apart
  constructor
  · exact three.self
  · intro slot inside present
    rcases three.cases inside present with ⟨_, frame⟩ | ⟨_, frame⟩ | ⟨_, frame⟩ <;> rwa [frame]
  · intro left right leftInside rightInside leftPresent rightPresent same
    rcases three.cases leftInside leftPresent with ⟨leftSlot, leftFrame⟩ | ⟨leftSlot, leftFrame⟩ | ⟨leftSlot, leftFrame⟩ <;>
      rcases three.cases rightInside rightPresent with ⟨rightSlot, rightFrame⟩ | ⟨rightSlot, rightFrame⟩ |
        ⟨rightSlot, rightFrame⟩ <;>
      rw [leftFrame, rightFrame] at same
    · rw [leftSlot, rightSlot]
    · exact absurd same notKernel
    · exact absurd same notDirectory
    · exact absurd same.symm notKernel
    · rw [leftSlot, rightSlot]
    · exact absurd same kernelNotDirectory
    · exact absurd same.symm notDirectory
    · exact absurd same.symm kernelNotDirectory
    · rw [leftSlot, rightSlot]
  · intro slot inside absent
    refine three.others slot inside ?_ ?_ ?_
    · rintro rfl
      exact absent three.identityPresent
    · rintro rfl
      exact absent three.kernelPresent
    · rintro rfl
      exact absent three.self.present
  · intro slot index inside within present clear
    -- Both tables are full, so there is no absent entry in them.
    rcases three.cases (by omega) present with ⟨rfl, frame⟩ | ⟨rfl, frame⟩ | ⟨rfl, _⟩
    · rw [tableFrame] at frame
      rw [entry, tableEntry, frame, (three.identityFilled index within).1] at clear
      simp at clear
    · rw [tableFrame] at frame
      rw [entry, tableEntry, frame, (three.kernelFilled index within).1] at clear
      simp at clear
    · simp at inside

end ThreeSlots

/-- Writing the three entries into a cleared directory. -/
theorem threeSlots_of_writes {memory : ByteMemory} {first second last : Word} {pmm : Pmm}
    (directoryAligned : directory.toNat % 4096 = 0) (identityAligned : identity.toNat % 4096 = 0)
    (kernelAligned : kernel.toNat % 4096 = 0)
    (cleared : ∀ index : Word, index.toNat < 1024 → memory.read32 (entryAddress directory index) = 0)
    (identityFilled : TableFilled memory identity 0) (kernelFilled : TableFilled memory kernel kernelLoadAddr)
    (apart : identity ≠ kernel ∧ identity ≠ directory ∧ kernel ≠ directory)
    (firstEntry : testFlag first pdePresent = true ∧ getAddr first = identity)
    (secondEntry : testFlag second pdePresent = true ∧ getAddr second = kernel)
    (lastEntry : testFlag last pdePresent = true ∧ getAddr last = directory) :
    (⟨((memory.write32 (entryAddress directory 0) first).write32 (entryAddress directory 768) second).write32
      (entryAddress directory 1023) last, directory, pmm⟩ : Machine).ThreeSlots identity kernel := by
  obtain ⟨notKernel, notDirectory, kernelNotDirectory⟩ := apart
  generalize written : ((memory.write32 (entryAddress directory 0) first).write32 (entryAddress directory 768)
    second).write32 (entryAddress directory 1023) last = memory'
  have same : getAddr directory = directory := getAddr_of_aligned directoryAligned
  have entries : ∀ slot : Word, slot.toNat < 1024 →
      (⟨memory', directory, pmm⟩ : Machine).directoryEntry slot =
        if slot = 1023 then last else if slot = 768 then second else if slot = 0 then first else 0 := by
    intro slot inside
    rw [directoryEntry, Machine.directory, same, ← written, read_entry_write directoryAligned (by decide) inside,
      read_entry_write directoryAligned (by decide) inside, read_entry_write directoryAligned (by decide) inside,
      cleared slot inside]
  have kept : ∀ table : Word, table.toNat % 4096 = 0 → table ≠ directory →
      Set.EqOn memory' memory (frameSpan table) := by
    intro table aligned different
    have outside : frameSpan table ⊆ (frameSpan directory)ᶜ :=
      Set.subset_compl_iff_disjoint_left.mpr (frames_disjoint directoryAligned aligned different.symm)
    rw [← written]
    refine ((write_entry_outside directoryAligned (by decide)).mono outside).trans ?_
    refine ((write_entry_outside directoryAligned (by decide)).mono outside).trans ?_
    exact (write_entry_outside directoryAligned (by decide)).mono outside
  have entry0 := entries 0 (by decide)
  have entry768 := entries 768 (by decide)
  have entry1023 := entries 1023 (by decide)
  rw [if_neg (by decide), if_neg (by decide), if_pos rfl] at entry0
  rw [if_neg (by decide), if_pos rfl] at entry768
  rw [if_pos rfl] at entry1023
  constructor
  · constructor
    · rw [Present, entry1023]
      exact lastEntry.1
    · rw [entry1023, Machine.directory, same]
      exact lastEntry.2
  · rw [Present, entry0]
    exact firstEntry.1
  · rw [tableFrame, entry0]
    exact firstEntry.2
  · rw [Present, entry768]
    exact secondEntry.1
  · rw [tableFrame, entry768]
    exact secondEntry.2
  · intro slot inside notFirst notSecond notLast
    rw [entries slot inside, if_neg notLast, if_neg notSecond, if_neg notFirst]
  · exact identityFilled.congr identityAligned (kept _ identityAligned notDirectory)
  · exact kernelFilled.congr kernelAligned (kept _ kernelAligned kernelNotDirectory)
  · rw [Machine.directory, same]
    exact ⟨notKernel, notDirectory, kernelNotDirectory⟩

end Machine

/-! What the boot loader leaves. -/

theorem Stage2.threeSlots (memory : ByteMemory) (pmm : Pmm) :
    (Stage2.machine memory pmm).ThreeSlots identityMapTableAddr kernelMapTableAddr := by
  have identityAligned : identityMapTableAddr.toNat % 4096 = 0 := by decide
  have kernelAligned : kernelMapTableAddr.toNat % 4096 = 0 := by decide
  have directoryAligned : pagingDirectoryAddr.toNat % 4096 = 0 := by decide
  have apart : identityMapTableAddr ≠ kernelMapTableAddr ∧ identityMapTableAddr ≠ pagingDirectoryAddr ∧
      kernelMapTableAddr ≠ pagingDirectoryAddr := by decide
  generalize clearing : clearFrame (clearFrame (clearFrame memory pagingDirectoryAddr) identityMapTableAddr)
    identityMapTableAddr = clearedMemory
  generalize identityFill : fillTable identityMapTableAddr ptePresent pagesPerTable 0 0 clearedMemory = identityMemory
  generalize kernelFill : fillTable kernelMapTableAddr ptePresent pagesPerTable kernelLoadAddr kernelVirtualAddr
    identityMemory = filledMemory
  -- Nothing after the first `memset` touches the directory until its entries are written.
  have directoryKept : Set.EqOn filledMemory (clearFrame memory pagingDirectoryAddr) (frameSpan pagingDirectoryAddr) := by
    have pastKernel := (@fillTable_outside identityMemory kernelMapTableAddr ptePresent kernelLoadAddr
      kernelVirtualAddr pagesPerTable kernelAligned).mono (Set.subset_compl_iff_disjoint_left.mpr
        (frames_disjoint kernelAligned directoryAligned apart.2.2))
    have pastIdentity := (@fillTable_outside clearedMemory identityMapTableAddr ptePresent 0 0 pagesPerTable
      identityAligned).mono (Set.subset_compl_iff_disjoint_left.mpr
        (frames_disjoint identityAligned directoryAligned apart.2.1))
    rw [kernelFill] at pastKernel
    rw [identityFill, ← clearing] at pastIdentity
    refine pastKernel.trans (pastIdentity.trans ?_)
    exact (clearFrame_apart identityAligned directoryAligned apart.2.1).trans
      (clearFrame_apart identityAligned directoryAligned apart.2.1)
  have cleared : ∀ index : Word, index.toNat < 1024 →
      filledMemory.read32 (entryAddress pagingDirectoryAddr index) = 0 := by
    intro index within
    rw [read_entry_congr directoryAligned within directoryKept, read_entry_clearFrame directoryAligned within]
  have identityFilled : TableFilled filledMemory identityMapTableAddr 0 := by
    have filled := @fillTable_filled clearedMemory identityMapTableAddr 0 0 0 identityAligned (by decide) (by decide)
    rw [show ptePresent ||| 0 = ptePresent by decide, identityFill] at filled
    refine filled.congr identityAligned ?_
    rw [← kernelFill]
    exact (fillTable_outside kernelAligned).mono (Set.subset_compl_iff_disjoint_left.mpr
      (frames_disjoint kernelAligned identityAligned apart.1.symm))
  have kernelFilled : TableFilled filledMemory kernelMapTableAddr kernelLoadAddr := by
    have filled := @fillTable_filled identityMemory kernelMapTableAddr 0 kernelLoadAddr kernelVirtualAddr
      kernelAligned (by decide) (by decide)
    rwa [show ptePresent ||| 0 = ptePresent by decide, kernelFill] at filled
  have three := @Machine.threeSlots_of_writes identityMapTableAddr kernelMapTableAddr pagingDirectoryAddr filledMemory
    (setFlag (setFlag (setAddr 0 identityMapTableAddr) pdePresent) pdeReadWrite)
    (setFlag (setFlag (setAddr 0 kernelMapTableAddr) pdePresent) pdeReadWrite)
    (setFlag (setAddr 0 pagingDirectoryAddr) (pdePresent ||| pdeReadWrite)) pmm directoryAligned identityAligned
    kernelAligned cleared identityFilled kernelFilled apart (by decide) (by decide) (by decide)
  rw [machine, initializePaging]
  simp only [clearing, identityFill, kernelFill]
  exact three

/-- The kernel reserves the first four megabytes, where all of this lies. -/
theorem Stage2.tables {memory : ByteMemory} {pmm : Pmm}
    (reserved : ∀ block < 1024, pmm.isBlockUsed block = true) : (Stage2.machine memory pmm).TablesSound := by
  refine (threeSlots memory pmm).tables (reserved _ (by decide)) (reserved _ (by decide)) (reserved _ ?_)
  change (getAddr pagingDirectoryAddr).toNat / 4096 < 1024
  decide

/-! `allocate_page_directory` and `allocate_page_table`. -/

namespace Machine

variable {machine after : Machine} {pageVa directory kernel identity : Word} {pages : Set Word}

/-- What one of these calls leaves: a cleared page on the frame just taken. -/
structure PageAllocated (machine : Machine) (pageVa : Word) (after : Machine) : Prop where
  cr3 : after.cr3 = machine.cr3
  pmm : after.pmm = (machine.allocBlock.2.withTable (getPageDirIndex pageVa)).pmm
  present : after.Present (getPageDirIndex pageVa)
  page : after.frameOf pageVa = some machine.allocBlock.1
  others : ∀ other : Word, (getPageDirIndex other).toNat < 1023 → ¬ SamePage other pageVa →
    after.frameOf other = machine.frameOf other
  cleared : ∀ index : Word, index.toNat < 1024 →
    after.memory.read32 (entryAddress machine.allocBlock.1 index) = 0
  kept : ∀ frame : Word, frame.toNat % 4096 = 0 → frame ≠ machine.allocBlock.1 →
    (∀ slot : Word, slot.toNat < 1024 → after.Present slot → after.tableFrame slot ≠ frame) →
    Set.EqOn after.memory machine.memory (frameSpan frame)

/-- Without a frame the page ends up on frame 0, and is cleared all the same. -/
theorem PagingInv.allocatePage (inv : machine.PagingInv pages) (inside : (getPageDirIndex pageVa).toNat < 1023)
    (aligned : pageVa.toNat % 4096 = 0)
    (enough : ¬ machine.allocBlock.2.Present (getPageDirIndex pageVa) → machine.allocBlock.2.FrameFree)
    (unmapped : machine.frameOf pageVa = none) :
    ∃ after, allocatePage pageVa machine = some (machine.allocBlock.1, after) ∧
      after.PagingInv (pages ∪ pageOf pageVa) ∧ PageAllocated machine pageVa after := by
  have frameAligned : machine.allocBlock.1.toNat % 4096 = 0 := machine.pmm.allocBlock_mod
  have keep : FlagsKeep machine.allocBlock.1 pteReadWrite := flagsKeep_of_lt frameAligned (by decide)
  have tables := inv.tables.allocBlock
  have new := tables.newTable enough
  have taken := inv.take inside enough keep
  have found := @mapped_frameOf_self machine.allocBlock.2 pageVa pageVa machine.allocBlock.1 pteReadWrite tables
    inside new frameAligned keep rfl
  have entries := fun slot => @mapped_directoryEntry machine.allocBlock.2 pageVa machine.allocBlock.1 pteReadWrite
    tables inside new slot
  have clear := taken.clear (.inr (mem_pageOf_iff.mpr rfl)) found
  have mapping := @mapAddress_of_unmapped machine.allocBlock.2 pageVa machine.allocBlock.1 pteReadWrite tables inside
    new (Option.map_eq_none_iff.mp unmapped)
  have stored := (pageStable_of_clear taken.tables.self aligned found clear).clear frameAligned
  have others := fun other => @mapped_frameOf_other machine.allocBlock.2 pageVa other machine.allocBlock.1
    pteReadWrite tables inside new
  have memory := fun frame => @mapped_memory_kept machine.allocBlock.2 pageVa frame machine.allocBlock.1 pteReadWrite
    tables inside new
  have same : (machine.allocBlock.2.mapped pageVa machine.allocBlock.1 pteReadWrite).pmm =
      (machine.allocBlock.2.withTable (getPageDirIndex pageVa)).pmm := rfl
  have cr3 : (machine.allocBlock.2.mapped pageVa machine.allocBlock.1 pteReadWrite).cr3 = machine.cr3 := by
    rw [mapped, setEntry]
    by_cases present : machine.allocBlock.2.Present (getPageDirIndex pageVa)
    · rw [withTable_of_present present]
      rfl
    · rw [withTable_of_absent present]
      rfl
  have present : (machine.allocBlock.2.mapped pageVa machine.allocBlock.1 pteReadWrite).Present
      (getPageDirIndex pageVa) := present_of_frameOf found
  rw [Machine.allocatePage]
  simp only [mapping, Option.bind_eq_bind, Option.bind_some, if_true, stored]
  generalize machine.allocBlock.2.mapped pageVa machine.allocBlock.1 pteReadWrite = middle at *
  have outside : Set.EqOn (clearFrame middle.memory machine.allocBlock.1) middle.memory
      (frameSpan machine.allocBlock.1)ᶜ := clearFrame_outside frameAligned
  have kept : middle.TablesKept (clearFrame middle.memory machine.allocBlock.1) :=
    tablesKept_of_clear frameAligned outside clear
  have self := taken.tables.self
  refine ⟨_, rfl, kept.inv taken, cr3, same, ?_, ?_, ?_, ?_, ?_⟩
  · rwa [Present, kept.directoryEntry self (by omega)]
  · rw [kept.frameOf self, found]
  · intro other otherInside different
    rw [kept.frameOf self, others other otherInside different]
    rfl
  · exact fun index within => read_entry_clearFrame frameAligned within
  · intro frame otherAligned different notTable
    refine (clearFrame_apart frameAligned otherAligned different.symm).trans (memory frame otherAligned ?_)
    intro slot slotInside slotPresent
    have apart := notTable slot slotInside
    rw [Present, tableFrame, kept.directoryEntry self slotInside] at apart
    exact apart slotPresent

theorem entry_names {frame flags : Word} (aligned : frame.toNat % 4096 = 0) (small : flags.toNat < 4096) :
    testFlag (setFlag (setAddr 0 frame) (pdePresent ||| flags)) pdePresent = true ∧
      getAddr (setFlag (setAddr 0 frame) (pdePresent ||| flags)) = frame := by
  have fits : (pdePresent ||| flags).toNat < 4096 := present_flags_lt small
  refine ⟨testFlag_setFlag_present .., ?_⟩
  rw [setAddr_zero, getAddr_setFlag fits, getAddr_of_aligned aligned]

def Shows (machine : Machine) (pageVa frame : Word) : Prop :=
  ∀ offset : Word, offset.toNat < 4096 → machine.translate (pageVa + offset) = some (frame + offset)

theorem Shows.store_entry {frame value : Word} (shown : machine.Shows pageVa frame) (within : index.toNat < 1024) :
    store32 (entryAddress pageVa index) value machine =
      some { machine with memory := machine.memory.write32 (entryAddress frame index) value } := by
  apply store32_of_translate
  intro lane small
  have translated := shown (index * 4 + BitVec.ofNat 32 lane) (by bv_omega)
  rw [← BitVec.add_assoc, ← BitVec.add_assoc] at translated
  exact translated

/-- What the processor finds in the recursive window of the directory it uses:
table `pdi` at `0xFFC00000 + pdi * 0x1000` and the directory itself at
`0xFFFFF000`, entry by entry. -/
structure WindowShowsTables (machine : Machine) : Prop where
  table : ∀ pdi pti : Word, pdi.toNat < 1024 → pti.toNat < 1024 → machine.Present pdi →
    machine.translate (getPageTableVirtualAddr pdi + 4 * pti) = some (entryAddress (machine.tableFrame pdi) pti)
  directory : ∀ pti : Word, pti.toNat < 1024 →
    machine.translate (getPageTableVirtualAddr 1023 + 4 * pti) = some (entryAddress machine.directory pti)
  self : ∀ index : Word, index.toNat < 1024 →
    machine.translate (0xFFFFF000 + 4 * index) = some (entryAddress machine.directory index)

theorem SelfMapped.windowShowsTables (self : machine.SelfMapped) : machine.WindowShowsTables := by
  have table : ∀ pdi pti : Word, pdi.toNat < 1024 → pti.toNat < 1024 → machine.Present pdi →
      machine.translate (getPageTableVirtualAddr pdi + 4 * pti) =
        some (entryAddress (machine.tableFrame pdi) pti) := by
    intro pdi pti inside within present
    have window := self.translate_window inside present (show (4 * pti).toNat < 4096 by bv_omega)
    rw [window, entryAddress, BitVec.mul_comm]
    rfl
  have directory : ∀ pti : Word, pti.toNat < 1024 →
      machine.translate (getPageTableVirtualAddr 1023 + 4 * pti) =
        some (entryAddress machine.directory pti) := by
    intro pti within
    rw [table 1023 pti (by decide) within self.present, tableFrame, self.address]
  exact ⟨table, directory, directory⟩

/-- Once the function has been applied to a directory, the window of that
directory shows its tables in every memory that keeps the entry it wrote,
whatever the other entries are. -/
theorem recursivelyMapPageDirectory_window {pageDirectoryPa pageDirectoryVa : Word}
    (aligned : pageDirectoryPa.toNat % 4096 = 0) (shown : machine.Shows pageDirectoryVa pageDirectoryPa) :
    ∃ after, recursivelyMapPageDirectory pageDirectoryPa pageDirectoryVa machine = some after ∧
      ∀ later : Machine, later.cr3 = pageDirectoryPa →
        later.memory.read32 (entryAddress pageDirectoryPa 1023) =
          after.memory.read32 (entryAddress pageDirectoryPa 1023) →
        later.directory = pageDirectoryPa ∧ later.WindowShowsTables := by
  have named := @entry_names pageDirectoryPa pdeReadWrite aligned (by decide)
  refine ⟨_, shown.store_entry (by decide), ?_⟩
  intro later current kept
  rw [ByteMemory.read32_write32] at kept
  have directory : later.directory = pageDirectoryPa := by
    rw [Machine.directory, current, getAddr_of_aligned aligned]
  have last : later.directoryEntry 1023 = setFlag (setAddr 0 pageDirectoryPa) (pdePresent ||| pdeReadWrite) := by
    rw [directoryEntry, directory, kept]
  have self : later.SelfMapped := by
    constructor
    · rw [Present, last]
      exact named.1
    · rw [last, directory]
      exact named.2
  exact ⟨directory, self.windowShowsTables⟩

/-- The boot loader's directory, seen through its own window. -/
theorem recursivelyMapPageDirectory_window_stage2 :
    ∃ after, recursivelyMapPageDirectory Stage2.pagingDirectoryAddr pageDirBase
        (Stage2.machine (fun _ => 0) ⟨fun _ => 0, 0, by decide⟩) = some after ∧
      ∀ later : Machine, later.cr3 = Stage2.pagingDirectoryAddr →
        later.memory.read32 (entryAddress Stage2.pagingDirectoryAddr 1023) =
          after.memory.read32 (entryAddress Stage2.pagingDirectoryAddr 1023) →
        later.directory = Stage2.pagingDirectoryAddr ∧ later.WindowShowsTables := by
  have self := (Stage2.threeSlots (fun _ => 0) ⟨fun _ => 0, 0, by decide⟩).self
  apply recursivelyMapPageDirectory_window (by decide)
  intro offset within
  have window := self.translate_window (show (1023 : Word).toNat < 1024 by decide) self.present within
  rw [self.address] at window
  exact window

/-- The three pages the kernel builds its tables on. -/
structure Workspace (machine : Machine) (pages : Set Word) (directory kernel identity : Word) : Prop where
  inv : machine.PagingInv pages
  listed : directoryVa ∈ pages ∧ kernelMapVa ∈ pages ∧ identityMapVa ∈ pages
  directoryPage : machine.frameOf directoryVa = some directory
  kernelPage : machine.frameOf kernelMapVa = some kernel
  identityPage : machine.frameOf identityMapVa = some identity
  nonnull : directory ≠ 0 ∧ kernel ≠ 0 ∧ identity ≠ 0
  cleared : ∀ index : Word, index.toNat < 1024 → machine.memory.read32 (entryAddress directory index) = 0

theorem Workspace.apart (work : machine.Workspace pages directory kernel identity) :
    identity ≠ kernel ∧ identity ≠ directory ∧ kernel ≠ directory := by
  obtain ⟨directoryListed, kernelListed, identityListed⟩ := work.listed
  have distinct := work.inv.apart.distinct
  refine ⟨?_, ?_, ?_⟩
  · rintro rfl
    exact absurd (distinct _ identityListed _ kernelListed _ work.identityPage work.kernelPage work.nonnull.2.2)
      (by decide)
  · rintro rfl
    exact absurd (distinct _ identityListed _ directoryListed _ work.identityPage work.directoryPage work.nonnull.1)
      (by decide)
  · rintro rfl
    exact absurd (distinct _ kernelListed _ directoryListed _ work.kernelPage work.directoryPage work.nonnull.1)
      (by decide)

/-- Filling the tables through their pages and entering them. -/
theorem Workspace.install (work : machine.Workspace pages directory kernel identity) :
    ∃ memory', installTables directory kernel identity machine = some ⟨memory', directory, machine.pmm⟩ ∧
      (⟨memory', directory, machine.pmm⟩ : Machine).ThreeSlots identity kernel := by
  obtain ⟨directoryListed, kernelListed, identityListed⟩ := work.listed
  obtain ⟨notKernel, notDirectory, kernelNotDirectory⟩ := work.apart
  have directoryAligned := frameOf_mod work.directoryPage
  have kernelAligned := frameOf_mod work.kernelPage
  have identityAligned := frameOf_mod work.identityPage
  -- First the kernel's table,
  have kernelStable := work.inv.stable kernelListed (by decide) work.kernelPage
  have kernelRun := @PageStable.fillTable _ (ptePresent ||| pteReadWrite) kernelLoadAddr kernelVirtualAddr _ _
    pagesPerTable kernelStable kernelAligned
  have kernelOutside := @Stage2.fillTable_outside machine.memory kernel (ptePresent ||| pteReadWrite) kernelLoadAddr
    kernelVirtualAddr pagesPerTable kernelAligned
  have kernelFilled := @Stage2.fillTable_filled machine.memory kernel pteReadWrite kernelLoadAddr kernelVirtualAddr
    kernelAligned (by decide) (by decide)
  obtain ⟨invKernel, framesKernel⟩ := work.inv.write kernelListed work.kernelPage kernelOutside
  generalize Stage2.fillTable kernel (ptePresent ||| pteReadWrite) pagesPerTable kernelLoadAddr kernelVirtualAddr
    machine.memory = kernelMemory at *
  -- then the identity map,
  have identityStable := invKernel.stable identityListed (by decide) ((framesKernel _).trans work.identityPage)
  have identityRun := @PageStable.fillTable _ ptePresent 0 0 _ _ pagesPerTable identityStable identityAligned
  have identityOutside := @Stage2.fillTable_outside kernelMemory identity ptePresent 0 0 pagesPerTable identityAligned
  have identityFilled := @Stage2.fillTable_filled kernelMemory identity 0 0 0 identityAligned (by decide) (by decide)
  rw [show ptePresent ||| 0 = ptePresent by decide] at identityFilled
  obtain ⟨invIdentity, framesIdentity⟩ := invKernel.write identityListed
    ((framesKernel _).trans work.identityPage) identityOutside
  dsimp only at identityRun invIdentity framesIdentity
  generalize Stage2.fillTable identity ptePresent pagesPerTable 0 0 kernelMemory = identityMemory at *
  -- and last the directory, which both loops have left cleared.
  have directoryStable := invIdentity.stable directoryListed (by decide)
    (((framesIdentity _).trans (framesKernel _)).trans work.directoryPage)
  have kept : ∀ frame : Word, frame.toNat % 4096 = 0 → identity ≠ frame →
      Set.EqOn identityMemory kernelMemory (frameSpan frame) := fun frame aligned different =>
    identityOutside.mono (Set.subset_compl_iff_disjoint_left.mpr (frames_disjoint identityAligned aligned different))
  have cleared : ∀ index : Word, index.toNat < 1024 →
      identityMemory.read32 (entryAddress directory index) = 0 := by
    intro index within
    rw [read_entry_congr directoryAligned within (kept _ directoryAligned notDirectory),
      read_entry_congr directoryAligned within (kernelOutside.mono (Set.subset_compl_iff_disjoint_left.mpr
        (frames_disjoint kernelAligned directoryAligned kernelNotDirectory))), work.cleared index within]
  have identityEntry := @entry_names identity 0 identityAligned (by decide)
  rw [show pdePresent ||| 0 = pdePresent by decide] at identityEntry
  have three := @threeSlots_of_writes identity kernel directory identityMemory
    (setFlag (setAddr 0 identity) pdePresent) (setFlag (setAddr 0 kernel) (pdePresent ||| pdeReadWrite))
    (setFlag (setAddr 0 directory) (pdePresent ||| pdeReadWrite)) machine.pmm directoryAligned identityAligned
    kernelAligned cleared identityFilled (kernelFilled.congr kernelAligned (kept _ kernelAligned notKernel))
    ⟨notKernel, notDirectory, kernelNotDirectory⟩ identityEntry (entry_names kernelAligned (by decide))
    (entry_names directoryAligned (by decide))
  refine ⟨_, ?_, three⟩
  have first := directoryStable.store_entry (show (0 : Word).toNat < 1024 by decide)
    (setFlag (setAddr 0 identity) pdePresent)
  have stableFirst := directoryStable.congr (@write_entry_outside identityMemory directory 0
    (setFlag (setAddr 0 identity) pdePresent) directoryAligned (by decide))
  have second := stableFirst.store_entry (show (768 : Word).toNat < 1024 by decide)
    (setFlag (setAddr 0 kernel) (pdePresent ||| pdeReadWrite))
  have stableSecond := stableFirst.congr (@write_entry_outside _ directory 768
    (setFlag (setAddr 0 kernel) (pdePresent ||| pdeReadWrite)) directoryAligned (by decide))
  have last := stableSecond.store_entry (show (1023 : Word).toNat < 1024 by decide)
    (setFlag (setAddr 0 directory) (pdePresent ||| pdeReadWrite))
  rw [installTables, kernelRun]
  simp only [Option.bind_eq_bind, Option.bind_some, identityRun, show getPageDirIndex 0 = 0 by decide,
    show getPageDirIndex kernelVirtualAddr = 768 by decide, first, second, recursivelyMapPageDirectory, last,
    switchCurrentPageDirectory, work.nonnull.1, if_false]

/-- The kernel on its own tables. They lie above the reserved memory. -/
structure KernelTables (machine : Machine) : Prop where
  inv : machine.PagingInv ∅
  slots : ∃ identity kernel, machine.ThreeSlots identity kernel
  high : ∀ slot : Word, slot.toNat < 1024 → machine.Present slot → 1024 ≤ (machine.tableFrame slot).toNat / 4096
  reserved : ∀ block < 1024, machine.pmm.isBlockUsed block = true

theorem taken_high (reserved : ∀ block < 1024, machine.pmm.isBlockUsed block = true)
    (nonnull : machine.allocBlock.1 ≠ 0) : 1024 ≤ machine.allocBlock.1.toNat / 4096 := by
  by_contra low
  have unused := (taken_of_nonnull nonnull).1
  rw [reserved _ (by omega)] at unused
  simp at unused

theorem Workspace.kernelTables (work : machine.Workspace pages directory kernel identity)
    (reserved : ∀ block < 1024, machine.pmm.isBlockUsed block = true)
    (high : 1024 ≤ directory.toNat / 4096 ∧ 1024 ≤ kernel.toNat / 4096 ∧ 1024 ≤ identity.toNat / 4096) :
    ∃ after, installTables directory kernel identity machine = some after ∧ after.KernelTables ∧
      after.pmm = machine.pmm := by
  obtain ⟨memory', run, three⟩ := work.install
  have same : (⟨memory', directory, machine.pmm⟩ : Machine).directory = directory :=
    getAddr_of_aligned (frameOf_mod work.directoryPage)
  have used := work.inv.apart.used
  obtain ⟨directoryListed, kernelListed, identityListed⟩ := work.listed
  obtain ⟨directoryNonnull, kernelNonnull, identityNonnull⟩ := work.nonnull
  have tables := three.tables (used _ identityListed _ work.identityPage identityNonnull)
    (used _ kernelListed _ work.kernelPage kernelNonnull)
    (by rw [same]; exact used _ directoryListed _ work.directoryPage directoryNonnull)
  have frames : ∀ slot : Word, slot.toNat < 1024 → (⟨memory', directory, machine.pmm⟩ : Machine).Present slot →
      1024 ≤ ((⟨memory', directory, machine.pmm⟩ : Machine).tableFrame slot).toNat / 4096 := by
    intro slot inside present
    rcases three.cases inside present with ⟨_, frame⟩ | ⟨_, frame⟩ | ⟨_, frame⟩
    · rw [frame]
      exact high.2.2
    · rw [frame]
      exact high.2.1
    · rw [frame, same]
      exact high.1
  refine ⟨_, run, ⟨⟨tables, ?_, fun slot inside present zero => ?_⟩, ⟨_, _, three⟩, frames, reserved⟩, rfl⟩
  · exact ⟨fun _ member => member.elim, fun _ member => member.elim, fun _ member => member.elim,
      fun _ member => member.elim⟩
  · have frame := frames slot inside present
    rw [zero] at frame
    simp at frame

theorem Stage2.inv {memory : ByteMemory} {pmm : Pmm} (reserved : ∀ block < 1024, pmm.isBlockUsed block = true) :
    (Stage2.machine memory pmm).PagingInv ∅ where
  tables := Stage2.tables reserved
  apart := ⟨fun _ member => member.elim, fun _ member => member.elim, fun _ member => member.elim,
    fun _ member => member.elim⟩
  nonnull slot inside present := by
    rcases (Stage2.threeSlots memory pmm).cases inside present with ⟨_, frame⟩ | ⟨_, frame⟩ | ⟨_, frame⟩
    · rw [frame]
      decide
    · rw [frame]
      decide
    · rw [frame]
      exact (by decide : getAddr Stage2.pagingDirectoryAddr ≠ 0)

theorem Stage2.absent {memory : ByteMemory} {pmm : Pmm} : ¬ (Stage2.machine memory pmm).Present 1 := by
  rw [Present, (Stage2.threeSlots memory pmm).others 1 (by decide) (by decide) (by decide) (by decide), testFlag_zero]
  simp

namespace PageAllocated

variable (done : machine.PageAllocated pageVa after)

include done

theorem pmm_of_present (present : machine.Present (getPageDirIndex pageVa)) :
    after.pmm = machine.pmm.allocBlock.2 := by
  rw [done.pmm, withTable_of_present (show machine.allocBlock.2.Present _ from present)]
  rfl

theorem pmm_of_absent (absent : ¬ machine.Present (getPageDirIndex pageVa)) :
    after.pmm = machine.pmm.allocBlock.2.allocBlock.2 := by
  rw [done.pmm, withTable_of_absent (show ¬ machine.allocBlock.2.Present _ from absent)]
  rfl

theorem used {block : Nat} (used : machine.pmm.isBlockUsed block = true) : after.pmm.isBlockUsed block = true := by
  rw [done.pmm]
  exact withTable_used (Pmm.allocBlock_used used)

end PageAllocated

/-- The three calls of `initialize_paging` that take frames. Only the first
needs a table; all three pages lie in slot 1. -/
theorem allocatePages_spec {memory : ByteMemory} {pmm : Pmm}
    (reserved : ∀ block < 1024, pmm.isBlockUsed block = true) (two : 2 ≤ pmm.getNumFreeBlocks) :
    ∃ directory kernel identity machine1 machine2 machine3 pages,
      allocatePageDirectory directoryVa (Stage2.machine memory pmm) = some (directory, machine1) ∧
      allocatePageTable kernelMapVa machine1 = some (kernel, machine2) ∧
      allocatePageTable identityMapVa machine2 = some (identity, machine3) ∧
      directory ≠ 0 ∧ (4 ≤ pmm.getNumFreeBlocks → identity ≠ 0) ∧ machine3.PagingInv pages ∧
      (∀ block < 1024, machine3.pmm.isBlockUsed block = true) ∧
      machine3.pmm = pmm.allocBlock.2.allocBlock.2.allocBlock.2.allocBlock.2 ∧
      (identity ≠ 0 → machine3.Workspace pages directory kernel identity ∧
        1024 ≤ directory.toNat / 4096 ∧ 1024 ≤ kernel.toNat / 4096 ∧ 1024 ≤ identity.toNat / 4096) := by
  generalize booted : Stage2.machine memory pmm = machine0
  have inv0 : machine0.PagingInv ∅ := booted ▸ Stage2.inv reserved
  have absent0 : ¬ machine0.Present 1 := booted ▸ Stage2.absent
  obtain rfl : machine0.pmm = pmm := booted ▸ rfl
  have unmapped0 : ∀ pageVa : Word, getPageDirIndex pageVa = 1 → machine0.frameOf pageVa = none := by
    intro pageVa slot
    rw [frameOf, walk_of_absent (by rwa [slot])]
    rfl
  have count := @Pmm.getNumFreeBlocks_allocBlock
  have free : ∀ {pmm : Pmm}, 0 < pmm.getNumFreeBlocks → _ := Pmm.getNumFreeBlocks_pos.mp
  -- The directory.
  obtain ⟨machine1, run1, inv1, done1⟩ := @PagingInv.allocatePage machine0 directoryVa ∅ inv0 (by decide) (by decide)
    (fun _ => free (by rw [show machine0.allocBlock.2.pmm = machine0.pmm.allocBlock.2 from rfl, count]; omega))
    (unmapped0 _ (by decide))
  have reserved1 := fun block low => done1.used (reserved block low)
  have pmm1 := done1.pmm_of_absent absent0
  have directoryNonnull : machine0.allocBlock.1 ≠ 0 :=
    Pmm.allocBlock_ne_zero (reserved 0 (by decide)) (free (by omega))
  -- The kernel's table.
  obtain ⟨machine2, run2, inv2, done2⟩ := @PagingInv.allocatePage machine1 kernelMapVa _ inv1 (by decide) (by decide)
    (absurd done1.present) ((done1.others _ (by decide) (by decide)).trans (unmapped0 _ (by decide)))
  have reserved2 := fun block low => done2.used (reserved1 block low)
  have pmm2 := done2.pmm_of_present done1.present
  -- The identity map.
  obtain ⟨machine3, run3, inv3, done3⟩ := @PagingInv.allocatePage machine2 identityMapVa _ inv2 (by decide) (by decide)
    (absurd done2.present) ((done2.others _ (by decide) (by decide)).trans
      ((done1.others _ (by decide) (by decide)).trans (unmapped0 _ (by decide))))
  have pmm3 := done3.pmm_of_present done2.present
  refine ⟨_, _, _, machine1, machine2, machine3, _, run1, run2, run3, directoryNonnull, fun four => ?_, inv3,
    fun block low => done3.used (reserved2 block low), ?_, fun identityNonnull => ?_⟩
  · refine Pmm.allocBlock_ne_zero (reserved2 0 (by decide)) (free ?_)
    rw [pmm2, count, pmm1, count, count]
    omega
  · rw [pmm3, pmm2, pmm1]
  · have kernelNonnull : machine1.allocBlock.1 ≠ 0 := by
      refine Pmm.allocBlock_ne_zero (reserved1 0 (by decide)) (free ?_)
      have positive := Pmm.getNumFreeBlocks_pos.mpr (Pmm.allocBlock_nonnull identityNonnull)
      rw [pmm2, count] at positive
      omega
    have directoryPage : machine3.frameOf directoryVa = some machine0.allocBlock.1 :=
      (done3.others _ (by decide) (by decide)).trans ((done2.others _ (by decide) (by decide)).trans done1.page)
    have kernelPage : machine3.frameOf kernelMapVa = some machine1.allocBlock.1 :=
      (done3.others _ (by decide) (by decide)).trans done2.page
    have aligned : machine0.allocBlock.1.toNat % 4096 = 0 := machine0.pmm.allocBlock_mod
    have listed2 : directoryVa ∈ ∅ ∪ pageOf directoryVa ∪ pageOf kernelMapVa := .inl (.inr (mem_pageOf_iff.mpr rfl))
    have listed3 : directoryVa ∈ ∅ ∪ pageOf directoryVa ∪ pageOf kernelMapVa ∪ pageOf identityMapVa := .inl listed2
    -- The directory stays cleared: the later pages have other frames.
    have kept2 := done2.kept _ aligned
      (fun same => ne_taken (inv1.apart.used _ (.inr (mem_pageOf_iff.mpr rfl)) _ done1.page directoryNonnull)
        directoryNonnull same.symm)
      (inv2.clear listed2 ((done2.others _ (by decide) (by decide)).trans done1.page))
    have kept3 := done3.kept _ aligned
      (fun same => ne_taken (inv2.apart.used _ listed2 _ ((done2.others _ (by decide) (by decide)).trans done1.page)
        directoryNonnull) directoryNonnull same.symm)
      (inv3.clear listed3 directoryPage)
    refine ⟨⟨inv3, ⟨listed3, .inl (.inr (mem_pageOf_iff.mpr rfl)), .inr (mem_pageOf_iff.mpr rfl)⟩, directoryPage,
      kernelPage, done3.page, ⟨directoryNonnull, kernelNonnull, identityNonnull⟩, fun index within => ?_⟩,
      taken_high reserved directoryNonnull, taken_high reserved1 kernelNonnull, taken_high reserved2 identityNonnull⟩
    rw [read_entry_congr aligned within (kept3.trans kept2), done1.cleared index within]

/-- `initialize_paging` needs a frame for the directory and one for the table
its pages go through. With four it completes; with fewer it returns early and
leaves the boot loader's directory in place. -/
theorem initializePaging_spec {memory : ByteMemory} {pmm : Pmm}
    (reserved : ∀ block < 1024, pmm.isBlockUsed block = true) (two : 2 ≤ pmm.getNumFreeBlocks) :
    ∃ after, initializePaging (Stage2.machine memory pmm) = some after ∧ after.PagingInv ∅ ∧
      (4 ≤ pmm.getNumFreeBlocks → after.KernelTables ∧
        after.pmm.getNumFreeBlocks = pmm.getNumFreeBlocks - 4) := by
  obtain ⟨directory, kernel, identity, machine1, machine2, machine3, pages, run1, run2, run3, directoryNonnull,
    identityNonnull, inv, reserved3, taken, ready⟩ := @allocatePages_spec memory pmm reserved two
  have free : machine3.pmm.getNumFreeBlocks = pmm.getNumFreeBlocks - 4 := by
    rw [taken, Pmm.getNumFreeBlocks_allocBlock, Pmm.getNumFreeBlocks_allocBlock, Pmm.getNumFreeBlocks_allocBlock,
      Pmm.getNumFreeBlocks_allocBlock]
    omega
  rw [initializePaging]
  simp only [run1, run2, run3, Option.bind_eq_bind, Option.bind_some, directoryNonnull, if_false]
  by_cases null : identity = 0
  · exact ⟨machine3, if_pos null, inv.mono (Set.empty_subset _), fun four => absurd null (identityNonnull four)⟩
  · obtain ⟨work, high⟩ := ready null
    obtain ⟨after, run, kernelTables, samePmm⟩ := work.kernelTables reserved3 high
    rw [if_neg null]
    exact ⟨after, run, kernelTables.inv, fun _ => ⟨kernelTables, by rw [samePmm, free]⟩⟩

end Machine

end ScratchOs
