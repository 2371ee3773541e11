import ScratchOs.Machine.Platform
import ScratchOs.Paging.Tables

namespace ScratchOs

open Data

/-! Pages and the frames behind them.

A set of pages is apart when no two of them share a frame and none uses a frame
of the tables. Pages on frame 0 are left out: that is what a page gets when
`NULL` was mapped. -/

namespace Machine

variable {machine : Machine} {virtualAddr other frame pdi : Word} {pages : Set Word}

def frameOf (machine : Machine) (virtualAddr : Word) : Option Word :=
  (machine.walk virtualAddr).map fun entries => getAddr entries.2

theorem mem_pageOf_iff : other ∈ pageOf virtualAddr ↔ SamePage other virtualAddr := by
  rw [pageOf, mem_span, SamePage]
  omega

/-- A run of pages is its first page and the pages behind it. -/
theorem mem_span_pages_succ {count : Nat} (aligned : virtualAddr.toNat % 4096 = 0) :
    other ∈ span virtualAddr.toNat (4096 * (count + 1)) ↔
      SamePage other virtualAddr ∨ other ∈ span (virtualAddr.toNat + 4096) (4096 * count) := by
  rw [mem_span, mem_span, SamePage]
  omega

theorem not_samePage_of_behind {size : Nat} (behind : other ∈ span (virtualAddr.toNat + 4096) size) :
    ¬ SamePage other virtualAddr := by
  rw [mem_span] at behind
  rw [SamePage]
  omega

theorem walk_samePage {left right : Word} (same : SamePage left right) : machine.walk left = machine.walk right := by
  obtain ⟨dir, table⟩ := samePage_iff.mp same
  simp only [walk, dir, table]

theorem frameOf_mod (found : machine.frameOf virtualAddr = some frame) : frame.toNat % 4096 = 0 := by
  obtain ⟨entries, _, rfl⟩ := Option.map_eq_some_iff.mp found
  exact getAddr_mod _

theorem present_of_frameOf (found : machine.frameOf virtualAddr = some frame) :
    machine.Present (getPageDirIndex virtualAddr) := by
  obtain ⟨entries, walked, _⟩ := Option.map_eq_some_iff.mp found
  exact walk_isSome_present (by rw [walked]; rfl)

theorem translate_eq_frameOf (machine : Machine) (virtualAddr : Word) :
    machine.translate virtualAddr = (machine.frameOf virtualAddr).map fun frame => frame + (virtualAddr &&& 0xFFF) := by
  rw [translate, frameOf, Option.map_map]
  rfl

structure PagesApart (machine : Machine) (pages : Set Word) : Prop where
  outside : ∀ virtualAddr ∈ pages, (getPageDirIndex virtualAddr).toNat < 1023
  used : ∀ virtualAddr ∈ pages, ∀ frame, machine.frameOf virtualAddr = some frame → frame ≠ 0 →
    machine.pmm.isBlockUsed (frame.toNat / 4096) = true
  clear : ∀ virtualAddr ∈ pages, ∀ frame, machine.frameOf virtualAddr = some frame → frame ≠ 0 →
    ∀ pdi : Word, pdi.toNat < 1024 → machine.Present pdi → machine.tableFrame pdi ≠ frame
  distinct : ∀ left ∈ pages, ∀ right ∈ pages, ∀ frame, machine.frameOf left = some frame →
    machine.frameOf right = some frame → frame ≠ 0 → SamePage left right

/-! Writes that leave the tables alone. -/

/-- Memory that differs from the machine's outside the frames of tables only. -/
def TablesKept (machine : Machine) (memory' : ByteMemory) : Prop :=
  ∀ slot : Word, slot.toNat < 1024 → machine.Present slot →
    Set.EqOn memory' machine.memory (frameSpan (machine.tableFrame slot))

variable {memory' : ByteMemory}

theorem TablesKept.directoryEntry (kept : machine.TablesKept memory') (self : machine.SelfMapped)
    (inside : pdi.toNat < 1024) :
    ({ machine with memory := memory' } : Machine).directoryEntry pdi = machine.directoryEntry pdi := by
  have same := kept 1023 (by decide) self.present
  rw [tableFrame, self.address] at same
  exact directoryEntry_congr inside same

theorem TablesKept.entry (kept : machine.TablesKept memory') (self : machine.SelfMapped)
    (inside : pdi.toNat < 1024) (present : machine.Present pdi) {pti : Word} (within : pti.toNat < 1024) :
    ({ machine with memory := memory' } : Machine).entry pdi pti = machine.entry pdi pti := by
  rw [Machine.entry, kept.directoryEntry self inside]
  exact read_entry_congr (machine.tableFrame_mod pdi) within (kept pdi inside present)

theorem getPageDirIndex_lt (virtualAddr : Word) : (getPageDirIndex virtualAddr).toNat < 1024 := by
  rw [getPageDirIndex_toNat]
  omega

theorem TablesKept.walk (kept : machine.TablesKept memory') (self : machine.SelfMapped) (virtualAddr : Word) :
    ({ machine with memory := memory' } : Machine).walk virtualAddr = machine.walk virtualAddr :=
  walk_congr (kept.directoryEntry self (getPageDirIndex_lt _)) fun present =>
    kept.entry self (getPageDirIndex_lt _) present (getPageTableIndex_lt _)

theorem TablesKept.frameOf (kept : machine.TablesKept memory') (self : machine.SelfMapped) (virtualAddr : Word) :
    ({ machine with memory := memory' } : Machine).frameOf virtualAddr = machine.frameOf virtualAddr := by
  rw [Machine.frameOf, kept.walk self, Machine.frameOf]

/-- Every entry a page goes through is as it was. -/
structure SameEntries (machine after : Machine) : Prop where
  directory : ∀ slot : Word, slot.toNat < 1024 → after.directoryEntry slot = machine.directoryEntry slot
  walk : ∀ virtualAddr, after.walk virtualAddr = machine.walk virtualAddr

theorem SameEntries.trans {middle after : Machine} (first : machine.SameEntries middle)
    (second : middle.SameEntries after) : machine.SameEntries after where
  directory slot inside := (second.directory slot inside).trans (first.directory slot inside)
  walk virtualAddr := (second.walk virtualAddr).trans (first.walk virtualAddr)

theorem TablesKept.sameEntries (kept : machine.TablesKept memory') (self : machine.SelfMapped) :
    machine.SameEntries { machine with memory := memory' } where
  directory _ := kept.directoryEntry self
  walk := kept.walk self

theorem TablesKept.tables (kept : machine.TablesKept memory') (tables : machine.TablesSound) :
    ({ machine with memory := memory' } : Machine).TablesSound := by
  refine tables.of_directory rfl (fun _ inside => kept.directoryEntry tables.self inside) tables.used
    fun slot index inside within present => ?_
  rw [kept.entry tables.self (by omega) present within]
  exact tables.tableZero slot index inside within present

/-- Whatever happens to the bitmap and the entries, what is known about pages
carries over to a machine with the same frames behind them. -/
theorem PagesApart.of_same (apart : machine.PagesApart pages) {after : Machine} {kept : Set Word}
    (subset : kept ⊆ pages)
    (frames : ∀ virtualAddr ∈ kept, after.frameOf virtualAddr = machine.frameOf virtualAddr)
    (used : ∀ virtualAddr ∈ kept, ∀ frame, machine.frameOf virtualAddr = some frame → frame ≠ 0 →
      after.pmm.isBlockUsed (frame.toNat / 4096) = true)
    (clear : ∀ virtualAddr ∈ kept, ∀ frame, machine.frameOf virtualAddr = some frame → frame ≠ 0 →
      ∀ pdi : Word, pdi.toNat < 1024 → after.Present pdi → after.tableFrame pdi ≠ frame) :
    after.PagesApart kept where
  outside virtualAddr member := apart.outside virtualAddr (subset member)
  used virtualAddr member frame found := used virtualAddr member frame (frames virtualAddr member ▸ found)
  clear virtualAddr member frame found := clear virtualAddr member frame (frames virtualAddr member ▸ found)
  distinct left leftMember right rightMember frame leftFound rightFound :=
    apart.distinct left (subset leftMember) right (subset rightMember) frame (frames left leftMember ▸ leftFound)
      (frames right rightMember ▸ rightFound)

theorem TablesKept.pagesApart (kept : machine.TablesKept memory') (self : machine.SelfMapped)
    (apart : machine.PagesApart pages) : ({ machine with memory := memory' } : Machine).PagesApart pages := by
  refine apart.of_same subset_rfl (fun virtualAddr _ => kept.frameOf self virtualAddr) apart.used ?_
  intro virtualAddr member frame found nonzero pdi inside present
  rw [Present, kept.directoryEntry self inside] at present
  rw [tableFrame, kept.directoryEntry self inside]
  exact apart.clear virtualAddr member frame found nonzero pdi inside present

/-! Taking a frame and mapping it. -/

/-- A frame just taken was in no one's hands. -/
theorem taken_of_nonnull (nonnull : machine.allocBlock.1 ≠ 0) :
    machine.pmm.isBlockUsed (machine.allocBlock.1.toNat / 4096) = false ∧
      machine.allocBlock.2.pmm.isBlockUsed (machine.allocBlock.1.toNat / 4096) = true :=
  Pmm.allocBlock_taken (Pmm.allocBlock_nonnull nonnull)

theorem ne_taken (used : machine.pmm.isBlockUsed (frame.toNat / 4096) = true) (nonnull : frame ≠ 0) :
    machine.allocBlock.1 ≠ frame := by
  rintro rfl
  rw [(taken_of_nonnull nonnull).1] at used
  simp at used

theorem PagesApart.allocBlock (apart : machine.PagesApart pages) : machine.allocBlock.2.PagesApart pages :=
  apart.of_same subset_rfl (fun _ _ => rfl)
    (fun virtualAddr member frame found nonnull =>
      Pmm.allocBlock_used (apart.used virtualAddr member frame found nonnull)) apart.clear

/-- The tables of a machine with a new table are the old ones and the new one. -/
theorem tableFrame_withTable (tables : machine.TablesSound) (inside : pdi.toNat < 1023)
    (new : machine.NewTable pdi) {slot : Word} (slotInside : slot.toNat < 1024)
    (present : (machine.withTable pdi).Present slot) :
    (machine.Present slot ∧ (machine.withTable pdi).tableFrame slot = machine.tableFrame slot) ∨
      (¬ machine.Present pdi ∧ slot = pdi ∧ (machine.withTable pdi).tableFrame slot = machine.allocBlock.1) := by
  by_cases old : machine.Present pdi
  · rw [withTable_of_present old] at present ⊢
    exact .inl ⟨present, rfl⟩
  · rw [withTable_of_absent old] at present ⊢
    have aligned : machine.allocBlock.1.toNat % 4096 = 0 := machine.pmm.allocBlock_mod
    have notDirectory : machine.allocBlock.1 ≠ machine.allocBlock.2.directory := by
      have clear := (new old).1 1023 (by decide) tables.self.present
      rw [tableFrame, tables.self.address] at clear
      exact clear.symm
    by_cases same : slot = pdi
    · subst same
      exact .inr ⟨old, rfl, enterTable_tableFrame (by omega) aligned notDirectory⟩
    · have entry := @enterTable_directoryEntry machine.allocBlock.2 pdi _ slot (by omega) slotInside aligned
        notDirectory
      rw [if_neg same] at entry
      rw [Present, entry] at present
      rw [tableFrame, entry]
      exact .inl ⟨present, rfl⟩

theorem withTable_used {block : Nat} (used : machine.pmm.isBlockUsed block = true) :
    (machine.withTable pdi).pmm.isBlockUsed block = true := by
  by_cases present : machine.Present pdi
  · rwa [withTable_of_present present]
  · rw [withTable_of_absent present]
    exact Pmm.allocBlock_used used

theorem withTable_size (machine : Machine) (pdi : Word) :
    (machine.withTable pdi).pmm.gBitmapSize = machine.pmm.gBitmapSize := by
  by_cases present : machine.Present pdi
  · rw [withTable_of_present present]
  · rw [withTable_of_absent present]
    exact machine.pmm.gBitmapSize_allocBlock

/-- A new table takes no page's frame. -/
theorem PagesApart.withTable (apart : machine.PagesApart pages) (tables : machine.TablesSound)
    (inside : pdi.toNat < 1023) (new : machine.NewTable pdi) : (machine.withTable pdi).PagesApart pages := by
  obtain ⟨_, _, walks⟩ := tables.withTable inside new
  refine apart.of_same subset_rfl (fun virtualAddr member => ?_) ?_ ?_
  · rw [frameOf, walks virtualAddr (apart.outside virtualAddr member), frameOf]
  · intro virtualAddr member frame found nonnull
    exact withTable_used (apart.used virtualAddr member frame found nonnull)
  · intro virtualAddr member frame found nonnull slot slotInside slotPresent
    rcases tableFrame_withTable tables inside new slotInside slotPresent with ⟨old, same⟩ | ⟨_, _, same⟩
    · rw [same]
      exact apart.clear virtualAddr member frame found nonnull slot slotInside old
    · rw [same]
      exact ne_taken (apart.used virtualAddr member frame found nonnull) nonnull

/-- The flags add no address bits to the frame. -/
def FlagsKeep (frame flags : Word) : Prop := getAddr (setFlag frame flags) = frame

theorem flagsKeep_of_lt {flags : Word} (aligned : frame.toNat % 4096 = 0) (small : flags.toNat < 4096) :
    FlagsKeep frame flags := by
  rw [FlagsKeep, ← getAddr_of_aligned aligned, getAddr_setFlag small]

theorem FlagsKeep.mappedEntry {flags : Word} (keep : FlagsKeep frame flags) (aligned : frame.toNat % 4096 = 0) :
    getAddr (Machine.mappedEntry 0 frame flags) = frame := by
  rw [mappedEntry_zero, getAddr_of_aligned aligned, getAddr_setFlag_present, keep]

section Mapped

variable {flags : Word} (tables : machine.TablesSound) (inside : (getPageDirIndex virtualAddr).toNat < 1023)
  (new : machine.NewTable (getPageDirIndex virtualAddr))

include tables inside new

theorem mapped_tables : (machine.mapped virtualAddr frame flags).TablesSound := by
  obtain ⟨ready, tablesAfter, _⟩ := tables.withTable inside new
  refine tablesAfter.setEntry inside ready.withTable.present (getPageTableIndex_lt virtualAddr) fun clear => ?_
  rw [testFlag_mappedEntry] at clear
  simp at clear

theorem mapped_directoryEntry {slot : Word} (slotInside : slot.toNat < 1024) :
    (machine.mapped virtualAddr frame flags).directoryEntry slot =
      (machine.withTable (getPageDirIndex virtualAddr)).directoryEntry slot := by
  obtain ⟨ready, tablesAfter, _⟩ := tables.withTable inside new
  exact setEntry_directoryEntry (tablesAfter.apart_directory inside ready.withTable.present)
    (getPageTableIndex_lt virtualAddr) slotInside

theorem mapped_frameOf_self (aligned : frame.toNat % 4096 = 0) (keep : FlagsKeep frame flags)
    (same : SamePage other virtualAddr) : (machine.mapped virtualAddr frame flags).frameOf other = some frame := by
  obtain ⟨ready, tablesAfter, _⟩ := tables.withTable inside new
  rw [frameOf, walk_samePage same, mapped, tablesAfter.walk_setEntry_self inside ready.withTable.present,
    if_pos (testFlag_mappedEntry ..), Option.map_some, keep.mappedEntry aligned]

theorem mapped_frameOf_other (outside : (getPageDirIndex other).toNat < 1023)
    (different : ¬ SamePage other virtualAddr) :
    (machine.mapped virtualAddr frame flags).frameOf other = machine.frameOf other := by
  obtain ⟨ready, tablesAfter, walks⟩ := tables.withTable inside new
  rw [samePage_iff] at different
  rw [frameOf, mapped, tablesAfter.walk_setEntry_other inside ready.withTable.present
    (getPageTableIndex_lt virtualAddr) outside different, walks other outside, frameOf]

/-- The frame of a page that has just been mapped must be no one else's. -/
theorem PagesApart.mapped (apart : machine.PagesApart pages) (aligned : frame.toNat % 4096 = 0)
    (keep : FlagsKeep frame flags)
    (used : frame ≠ 0 → machine.pmm.isBlockUsed (frame.toNat / 4096) = true)
    (fresh : frame ≠ 0 → ∀ other ∈ pages, machine.frameOf other ≠ some frame)
    (clear : frame ≠ 0 → ∀ slot : Word, slot.toNat < 1024 → machine.Present slot → machine.tableFrame slot ≠ frame) :
    (machine.mapped virtualAddr frame flags).PagesApart (pages ∪ pageOf virtualAddr) := by
  have self := fun other => @mapped_frameOf_self machine virtualAddr other frame flags tables inside new aligned keep
  have rest := fun other => @mapped_frameOf_other machine virtualAddr other frame flags tables inside new
  have withTable := apart.withTable tables inside new
  -- Every page of the larger set is the new one or an old one with its old frame.
  have split : ∀ other ∈ pages ∪ pageOf virtualAddr, ∀ found,
      (machine.mapped virtualAddr frame flags).frameOf other = some found →
      (SamePage other virtualAddr ∧ found = frame) ∨ (other ∈ pages ∧ machine.frameOf other = some found) := by
    intro other member found lookup
    by_cases same : SamePage other virtualAddr
    · rw [self other same] at lookup
      exact .inl ⟨same, (Option.some.inj lookup).symm⟩
    · have old : other ∈ pages := member.resolve_right fun page => same (mem_pageOf_iff.mp page)
      rw [rest other (apart.outside other old) same] at lookup
      exact .inr ⟨old, lookup⟩
  have entries := fun slot => @mapped_directoryEntry machine virtualAddr frame flags tables inside new slot
  constructor
  · intro other member
    rcases member with old | page
    · exact apart.outside other old
    · rw [(samePage_iff.mp (mem_pageOf_iff.mp page)).1]
      exact inside
  · intro other member found lookup nonnull
    refine withTable_used ?_
    rcases split other member found lookup with ⟨_, rfl⟩ | ⟨old, before⟩
    · exact used nonnull
    · exact apart.used other old found before nonnull
  · intro other member found lookup nonnull slot slotInside present
    rw [Present, entries slot slotInside] at present
    rw [tableFrame, entries slot slotInside]
    rcases split other member found lookup with ⟨_, rfl⟩ | ⟨old, before⟩
    · rcases tableFrame_withTable tables inside new slotInside present with ⟨oldSlot, same⟩ | ⟨_, _, same⟩
      · exact fun equal => clear nonnull slot slotInside oldSlot (same.symm.trans equal)
      · exact fun equal => ne_taken (used nonnull) nonnull (same.symm.trans equal)
    · refine withTable.clear other old found ?_ nonnull slot slotInside present
      obtain ⟨_, _, walks⟩ := tables.withTable inside new
      rw [frameOf, walks other (apart.outside other old), ← frameOf, before]
  · intro left leftMember right rightMember found leftLookup rightLookup nonnull
    rcases split left leftMember found leftLookup with ⟨leftSame, rfl⟩ | ⟨leftOld, leftBefore⟩
    · rcases split right rightMember found rightLookup with ⟨rightSame, _⟩ | ⟨rightOld, rightBefore⟩
      · exact leftSame.trans rightSame.symm
      · exact absurd rightBefore (fresh nonnull right rightOld)
    · rcases split right rightMember found rightLookup with ⟨_, rfl⟩ | ⟨rightOld, rightBefore⟩
      · exact absurd leftBefore (fresh nonnull left leftOld)
      · exact apart.distinct left leftOld right rightOld found leftBefore rightBefore nonnull

/-- `map_address` writes to frames of tables only. -/
theorem mapped_memory_kept (aligned : other.toNat % 4096 = 0)
    (clear : ∀ slot : Word, slot.toNat < 1024 → (machine.mapped virtualAddr frame flags).Present slot →
      (machine.mapped virtualAddr frame flags).tableFrame slot ≠ other) :
    Set.EqOn (machine.mapped virtualAddr frame flags).memory machine.memory (frameSpan other) := by
  obtain ⟨ready, tablesAfter, _⟩ := tables.withTable inside new
  have opened := ready.withTable
  have clearBefore : ∀ slot : Word, slot.toNat < 1024 →
      (machine.withTable (getPageDirIndex virtualAddr)).Present slot →
      (machine.withTable (getPageDirIndex virtualAddr)).tableFrame slot ≠ other := by
    intro slot slotInside present
    have same := @mapped_directoryEntry machine virtualAddr frame flags tables inside new slot slotInside
    have apart := clear slot slotInside (by rwa [Present, same])
    rwa [tableFrame, same] at apart
  have entered : Set.EqOn (machine.mapped virtualAddr frame flags).memory
      (machine.withTable (getPageDirIndex virtualAddr)).memory (frameSpan other) := by
    refine (write_entry_outside (tableFrame_mod ..) (getPageTableIndex_lt virtualAddr)).mono ?_
    exact Set.subset_compl_iff_disjoint_left.mpr (frames_disjoint (tableFrame_mod ..) aligned
      (clearBefore _ opened.inside opened.present))
  refine entered.trans ?_
  by_cases present : machine.Present (getPageDirIndex virtualAddr)
  · rw [withTable_of_present present]
    exact fun _ _ => rfl
  · have notDirectory := clearBefore 1023 (by decide) tablesAfter.self.present
    have notTable := clearBefore _ opened.inside opened.present
    have taken : machine.allocBlock.1.toNat % 4096 = 0 := machine.pmm.allocBlock_mod
    rw [tableFrame, tablesAfter.self.address] at notDirectory
    rw [withTable_of_absent present] at notDirectory notTable ⊢
    rw [@enterTable_tableFrame machine.allocBlock.2 _ _ opened.inside taken (ready.absent present)] at notTable
    rw [enterTable_directory] at notDirectory
    refine (clearFrame_apart taken aligned notTable).trans ?_
    refine (write_entry_outside (directory_mod _) opened.inside).mono ?_
    exact Set.subset_compl_iff_disjoint_left.mpr (frames_disjoint (directory_mod _) aligned notDirectory)

end Mapped

theorem PagesApart.take (apart : machine.PagesApart pages) (tables : machine.TablesSound) {flags : Word}
    (inside : (getPageDirIndex virtualAddr).toNat < 1023)
    (new : machine.allocBlock.2.NewTable (getPageDirIndex virtualAddr))
    (keep : FlagsKeep machine.allocBlock.1 flags) :
    (machine.allocBlock.2.mapped virtualAddr machine.allocBlock.1 flags).PagesApart (pages ∪ pageOf virtualAddr) := by
  refine apart.allocBlock.mapped tables.allocBlock inside new machine.pmm.allocBlock_mod keep
    (fun nonnull => (taken_of_nonnull nonnull).2) ?_ ?_
  · intro nonnull other member found
    exact ne_taken (apart.used other member _ found nonnull) nonnull rfl
  · intro nonnull slot slotInside present same
    exact ne_taken (tables.used slot slotInside present) (fun zero => nonnull (same.symm.trans zero)) same.symm

/-! `unmap_address`. -/

theorem unmapAddress_eq (self : machine.SelfMapped)
    (apart : machine.Present (getPageDirIndex virtualAddr) →
      machine.tableFrame (getPageDirIndex virtualAddr) ≠ machine.directory) :
    unmapAddress virtualAddr machine =
      match machine.frameOf virtualAddr with
      | none => some machine
      | some frame =>
          some ((machine.setEntry (getPageDirIndex virtualAddr) (getPageTableIndex virtualAddr) 0).freeBlock frame) := by
  have within := getPageTableIndex_lt virtualAddr
  rw [unmapAddress]
  simp only [self.load_directory (getPageDirIndex_lt virtualAddr), Option.bind_eq_bind, Option.bind_some]
  by_cases present : machine.Present (getPageDirIndex virtualAddr)
  · have opened : machine.SlotOpen (getPageDirIndex virtualAddr) := ⟨self, getPageDirIndex_lt _, present, apart present⟩
    rw [frameOf, walk_of_present present, if_pos present]
    simp only [opened.load within, opened.store within, Option.bind_some]
    by_cases set : testFlag (machine.entry (getPageDirIndex virtualAddr) (getPageTableIndex virtualAddr))
        ptePresent = true
    · simp only [if_pos set, Option.map_some]
    · simp only [if_neg set, Option.map_none]
  · rw [frameOf, walk_of_absent present, if_neg present]
    rfl

theorem TablesSound.unmap (tables : machine.TablesSound) (inside : (getPageDirIndex virtualAddr).toNat < 1023)
    (found : machine.frameOf virtualAddr = some frame)
    (clear : ∀ slot : Word, slot.toNat < 1024 → machine.Present slot → machine.tableFrame slot ≠ frame) :
    ((machine.setEntry (getPageDirIndex virtualAddr) (getPageTableIndex virtualAddr) 0).freeBlock
      frame).TablesSound := by
  have present := present_of_frameOf found
  have apart := tables.apart_directory inside present
  have entries := fun slot => @setEntry_directoryEntry machine _ _ slot 0 apart (getPageTableIndex_lt virtualAddr)
  have cleared := tables.setEntry inside present (getPageTableIndex_lt virtualAddr) (fun _ => (rfl : (0 : Word) = 0))
  refine cleared.of_directory rfl (fun _ _ => rfl) (fun slot slotInside slotPresent => ?_) cleared.tableZero
  have used := cleared.used slot slotInside slotPresent
  rw [Present, entries slot slotInside] at slotPresent
  have different : ((machine.setEntry (getPageDirIndex virtualAddr) (getPageTableIndex virtualAddr)
      0).tableFrame slot).toNat / 4096 ≠ frame.toNat / 4096 := by
    rw [tableFrame, entries slot slotInside, ← tableFrame]
    intro same
    refine clear slot slotInside slotPresent (BitVec.eq_of_toNat_eq ?_)
    have aligned := machine.tableFrame_mod slot
    have frameAligned := frameOf_mod found
    omega
  rw [freeBlock, Pmm.freeBlock, Pmm.isBlockUsed_markBlockFree, used]
  simp only [bitmapBlockSize, different, decide_false, Bool.not_false, Bool.and_self]

theorem PagesApart.unmap (apart : machine.PagesApart pages) (tables : machine.TablesSound)
    (inside : (getPageDirIndex virtualAddr).toNat < 1023)
    (found : machine.frameOf virtualAddr = some frame) (member : virtualAddr ∈ pages) :
    ((machine.setEntry (getPageDirIndex virtualAddr) (getPageTableIndex virtualAddr) 0).freeBlock
      frame).PagesApart (pages \ pageOf virtualAddr) := by
  have present := present_of_frameOf found
  have directory := tables.apart_directory inside present
  have within := getPageTableIndex_lt virtualAddr
  refine apart.of_same Set.sdiff_subset (fun other otherMember => ?_) ?_ ?_
  · have different : ¬ SamePage other virtualAddr := fun same => otherMember.2 (mem_pageOf_iff.mpr same)
    rw [samePage_iff] at different
    have walked := tables.walk_setEntry_other inside present within (apart.outside other otherMember.1) different 0
    rw [frameOf, frameOf, ← walked]
    rfl
  · intro other otherMember otherFrame lookup nonnull
    have used := apart.used other otherMember.1 otherFrame lookup nonnull
    have different : otherFrame.toNat / 4096 ≠ frame.toNat / 4096 := by
      intro same
      have equal : otherFrame = frame := by
        have aligned := frameOf_mod lookup
        have frameAligned := frameOf_mod found
        exact BitVec.eq_of_toNat_eq (by omega)
      subst equal
      exact otherMember.2 (mem_pageOf_iff.mpr
        (apart.distinct other otherMember.1 virtualAddr member otherFrame lookup found nonnull))
    rw [freeBlock, Pmm.freeBlock, Pmm.isBlockUsed_markBlockFree]
    change (_ && machine.pmm.isBlockUsed _) = true
    simp only [bitmapBlockSize, different, decide_false, Bool.not_false, used, Bool.and_self]
  · intro other otherMember otherFrame lookup nonnull slot slotInside slotPresent
    have entry := @setEntry_directoryEntry machine _ _ slot 0 directory within slotInside
    change testFlag ((machine.setEntry _ _ 0).directoryEntry slot) _ = true at slotPresent
    change getAddr ((machine.setEntry _ _ 0).directoryEntry slot) ≠ _
    rw [entry] at slotPresent ⊢
    exact apart.clear other otherMember.1 otherFrame lookup nonnull slot slotInside slotPresent

/-! The invariant of the paging code. -/

/-- The tables are sound, none of them is on frame 0, and the listed pages have
frames of their own. -/
structure PagingInv (machine : Machine) (pages : Set Word) : Prop where
  tables : machine.TablesSound
  apart : machine.PagesApart pages
  nonnull : ∀ slot : Word, slot.toNat < 1024 → machine.Present slot → machine.tableFrame slot ≠ 0

namespace PagingInv

variable {flags : Word}

/-- Whatever frame a listed page has, it is no table. -/
theorem clear (inv : machine.PagingInv pages) (member : virtualAddr ∈ pages)
    (found : machine.frameOf virtualAddr = some frame) :
    ∀ slot : Word, slot.toNat < 1024 → machine.Present slot → machine.tableFrame slot ≠ frame := by
  intro slot inside present
  by_cases null : frame = 0
  · rw [null]
    exact inv.nonnull slot inside present
  · exact inv.apart.clear virtualAddr member frame found null slot inside present

theorem allocBlock (inv : machine.PagingInv pages) : machine.allocBlock.2.PagingInv pages :=
  ⟨inv.tables.allocBlock, inv.apart.allocBlock, inv.nonnull⟩

/-- Mapping a frame just taken, with another one left for the table. -/
theorem take (inv : machine.PagingInv pages) (inside : (getPageDirIndex virtualAddr).toNat < 1023)
    (enough : ¬ machine.allocBlock.2.Present (getPageDirIndex virtualAddr) → machine.allocBlock.2.FrameFree)
    (keep : FlagsKeep machine.allocBlock.1 flags) :
    (machine.allocBlock.2.mapped virtualAddr machine.allocBlock.1 flags).PagingInv (pages ∪ pageOf virtualAddr) := by
  have new := inv.tables.allocBlock.newTable enough
  refine ⟨mapped_tables inv.tables.allocBlock inside new, inv.apart.take inv.tables inside new keep, ?_⟩
  intro slot slotInside present
  have entry := @mapped_directoryEntry machine.allocBlock.2 virtualAddr machine.allocBlock.1 flags
    inv.tables.allocBlock inside new slot slotInside
  rw [Present, entry] at present
  rw [tableFrame, entry]
  rcases tableFrame_withTable inv.tables.allocBlock inside new slotInside present with ⟨old, same⟩ | ⟨absent, _, same⟩
  · rw [tableFrame] at same
    rw [same]
    exact inv.nonnull slot slotInside old
  · rw [tableFrame] at same
    rw [same]
    exact Pmm.allocBlock_second (enough absent)

theorem unmap (inv : machine.PagingInv pages) (member : virtualAddr ∈ pages) :
    ∃ after, unmapAddress virtualAddr machine = some after ∧ after.PagingInv (pages \ pageOf virtualAddr) := by
  have inside := inv.apart.outside virtualAddr member
  rw [unmapAddress_eq inv.tables.self (inv.tables.apart_directory inside)]
  cases found : machine.frameOf virtualAddr with
  | none =>
      refine ⟨machine, rfl, inv.tables, ?_, inv.nonnull⟩
      exact inv.apart.of_same Set.sdiff_subset (fun _ _ => rfl) (fun other old => inv.apart.used other old.1)
        (fun other old => inv.apart.clear other old.1)
  | some frame =>
      refine ⟨_, rfl, inv.tables.unmap inside found (inv.clear member found),
        inv.apart.unmap inv.tables inside found member, ?_⟩
      intro slot slotInside present
      have entry := @setEntry_directoryEntry machine _ _ slot 0
        (inv.tables.apart_directory inside (present_of_frameOf found)) (getPageTableIndex_lt virtualAddr) slotInside
      change testFlag ((machine.setEntry _ _ 0).directoryEntry slot) _ = true at present
      change getAddr ((machine.setEntry _ _ 0).directoryEntry slot) ≠ _
      rw [entry] at present ⊢
      exact inv.nonnull slot slotInside present

end PagingInv

/-! Pages the kernel works on. -/

theorem TablesKept.inv (kept : machine.TablesKept memory') (inv : machine.PagingInv pages) :
    ({ machine with memory := memory' } : Machine).PagingInv pages := by
  refine ⟨kept.tables inv.tables, kept.pagesApart inv.tables.self inv.apart, fun slot inside present => ?_⟩
  rw [Present, kept.directoryEntry inv.tables.self inside] at present
  rw [tableFrame, kept.directoryEntry inv.tables.self inside]
  exact inv.nonnull slot inside present

/-- Memory that differs in one frame, which is no table. -/
theorem tablesKept_of_clear (aligned : frame.toNat % 4096 = 0)
    (same : Set.EqOn memory' machine.memory (frameSpan frame)ᶜ)
    (clear : ∀ slot : Word, slot.toNat < 1024 → machine.Present slot → machine.tableFrame slot ≠ frame) :
    machine.TablesKept memory' := by
  intro slot inside present
  exact same.mono (Set.subset_compl_iff_disjoint_left.mpr
    (frames_disjoint aligned (machine.tableFrame_mod slot) (clear slot inside present).symm))

/-- A page whose frame is no table does not move when it is written to. -/
theorem pageStable_of_clear (self : machine.SelfMapped) (aligned : virtualAddr.toNat % 4096 = 0)
    (found : machine.frameOf virtualAddr = some frame)
    (clear : ∀ slot : Word, slot.toNat < 1024 → machine.Present slot → machine.tableFrame slot ≠ frame) :
    machine.PageStable virtualAddr frame := by
  intro memory' same offset within
  have kept : machine.TablesKept memory' := tablesKept_of_clear (frameOf_mod found) same clear
  have samePage : SamePage (virtualAddr + offset) virtualAddr := by
    rw [SamePage]
    bv_omega
  have low : (virtualAddr + offset) &&& 0xFFF = offset := by
    apply BitVec.eq_of_toNat_eq
    rw [offset_toNat]
    bv_omega
  rw [translate_eq_frameOf, kept.frameOf self, low, frameOf, walk_samePage samePage, ← frameOf, found, Option.map_some]

theorem PagingInv.mono (inv : machine.PagingInv pages) {kept : Set Word} (subset : kept ⊆ pages) :
    machine.PagingInv kept :=
  ⟨inv.tables, inv.apart.of_same subset (fun _ _ => rfl) (fun other member => inv.apart.used other (subset member))
    (fun other member => inv.apart.clear other (subset member)), inv.nonnull⟩

theorem PagingInv.stable (inv : machine.PagingInv pages) (member : virtualAddr ∈ pages)
    (aligned : virtualAddr.toNat % 4096 = 0) (found : machine.frameOf virtualAddr = some frame) :
    machine.PageStable virtualAddr frame :=
  pageStable_of_clear inv.tables.self aligned found (inv.clear member found)

/-- Writing to the frame of a listed page. -/
theorem PagingInv.write (inv : machine.PagingInv pages) (member : virtualAddr ∈ pages)
    (found : machine.frameOf virtualAddr = some frame)
    (same : Set.EqOn memory' machine.memory (frameSpan frame)ᶜ) :
    ({ machine with memory := memory' } : Machine).PagingInv pages ∧
      ∀ other, ({ machine with memory := memory' } : Machine).frameOf other = machine.frameOf other := by
  have kept : machine.TablesKept memory' := tablesKept_of_clear (frameOf_mod found) same (inv.clear member found)
  exact ⟨kept.inv inv, kept.frameOf inv.tables.self⟩

end Machine

end ScratchOs
