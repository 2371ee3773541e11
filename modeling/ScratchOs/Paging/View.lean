import ScratchOs.Machine.Mapping
import ScratchOs.Paging.Pages

namespace ScratchOs

open Data

/-! The paged machine as flat memory.

The heap and the virtual memory manager see the pages of their windows only.
While these pages have frames of their own, reading and writing them is reading
and writing one flat memory. -/

namespace Machine

def platform : Platform Machine where
  load8 := load8
  load32 := load32
  store8 := store8
  store32 := store32
  allocBlock := allocBlock
  freeBlock := freeBlock
  mapAddress := mapAddress

/-- The pages `kmalloc.c` and `vmm.c` ask for. Both loops include the page
behind the end of their window. -/
def managed : Set Word :=
  { address | 0x400000 ≤ address.toNat ∧ address.toNat < 0xC0001000 ∨
    0xD0000000 ≤ address.toNat ∧ address.toNat < 0xE0001000 }

instance (address : Word) : Decidable (address ∈ managed) := inferInstanceAs (Decidable (_ ∨ _))

/-- Whole pages outside the recursive window. -/
structure Window where
  pages : Set Word
  decidable : DecidablePred (· ∈ pages)
  outside : ∀ {virtualAddr : Word}, virtualAddr ∈ pages → (getPageDirIndex virtualAddr).toNat < 1023
  whole : ∀ {other virtualAddr : Word}, SamePage other virtualAddr → virtualAddr ∈ pages → other ∈ pages

instance (window : Window) (address : Word) : Decidable (address ∈ window.pages) := window.decidable address

variable {machine : Machine} {window : Window} {virtualAddr other frame place : Word}

theorem managed_outside (member : virtualAddr ∈ managed) : (getPageDirIndex virtualAddr).toNat < 1023 := by
  rw [getPageDirIndex_toNat]
  rcases member with bounds | bounds <;> omega

theorem managed_samePage (same : SamePage other virtualAddr) (member : virtualAddr ∈ managed) : other ∈ managed := by
  rw [SamePage] at same
  rcases member with bounds | bounds
  · exact .inl (by omega)
  · exact .inr (by omega)

def managedWindow : Window where
  pages := managed
  decidable := inferInstance
  outside := managed_outside
  whole := managed_samePage

/-- The pages of the window have frames of their own, and at most one table was
ever put on frame 0: that takes the last frame, and none comes back. -/
structure ExclusiveOn (machine : Machine) (window : Window) : Prop where
  tables : machine.TablesSound
  apart : machine.PagesApart window.pages
  nonnull : ∀ virtualAddr ∈ window.pages, machine.frameOf virtualAddr ≠ some 0
  zeroUsed : machine.pmm.isBlockUsed 0 = true
  exhausted : ∀ slot : Word, slot.toNat < 1024 → machine.Present slot → machine.tableFrame slot = 0 →
    ¬ machine.FrameFree

abbrev Exclusive (machine : Machine) : Prop := machine.ExclusiveOn managedWindow

def MappedOn (machine : Machine) (window : Window) : Set Word :=
  { address | address ∈ window.pages ∧ (machine.frameOf address).isSome = true }

abbrev Mapped (machine : Machine) : Set Word := machine.MappedOn managedWindow

/-- The window's contents; everything else reads as zero. -/
def bytesOn (machine : Machine) (window : Window) : ByteMemory := fun address =>
  if address ∈ window.pages then
    match machine.translate address with
    | some place => machine.memory place
    | none => 0
  else 0

abbrev bytes (machine : Machine) : ByteMemory := machine.bytesOn managedWindow

theorem bytes_of_translate (member : virtualAddr ∈ window.pages) (found : machine.translate virtualAddr = some place) :
    machine.bytesOn window virtualAddr = machine.memory place := by
  rw [bytesOn, if_pos member, found]

theorem translate_of_mapped (mapped : virtualAddr ∈ machine.MappedOn window) : ∃ frame,
    machine.frameOf virtualAddr = some frame ∧
      machine.translate virtualAddr = some (frame + (virtualAddr &&& 0xFFF)) := by
  obtain ⟨frame, found⟩ := Option.isSome_iff_exists.mp mapped.2
  exact ⟨frame, found, by rw [translate_eq_frameOf, found, Option.map_some]⟩

theorem offset_mem_frame (aligned : frame.toNat % 4096 = 0) (virtualAddr : Word) :
    frame + (virtualAddr &&& 0xFFF) ∈ frameSpan frame := by
  have low := offset_toNat virtualAddr
  rw [mem_span]
  bv_omega

namespace ExclusiveOn

/-- No two managed addresses share a byte. -/
theorem translate_injective (exclusive : machine.ExclusiveOn window) (member : virtualAddr ∈ window.pages)
    (otherMember : other ∈ window.pages) (found : machine.translate virtualAddr = some place)
    (otherFound : machine.translate other = some place) : virtualAddr = other := by
  rw [translate_eq_frameOf] at found otherFound
  obtain ⟨frame, frameFound, rfl⟩ := Option.map_eq_some_iff.mp found
  obtain ⟨otherFrame, otherFrameFound, same⟩ := Option.map_eq_some_iff.mp otherFound
  have aligned := frameOf_mod frameFound
  have otherAligned := frameOf_mod otherFrameFound
  have low := offset_toNat virtualAddr
  have otherLow := offset_toNat other
  have equal : otherFrame = frame := by bv_omega
  have offsets : other.toNat % 4096 = virtualAddr.toNat % 4096 := by
    rw [equal] at same
    bv_omega
  have nonnull : frame ≠ 0 := fun null => exclusive.nonnull virtualAddr member (by rw [frameFound, null])
  have page := exclusive.apart.distinct virtualAddr member other otherMember frame frameFound
    (by rw [otherFrameFound, equal]) nonnull
  rw [SamePage] at page
  exact BitVec.eq_of_toNat_eq (by omega)

/-- What writing a byte of a managed page does. -/
structure Written (machine : Machine) (window : Window) (virtualAddr place : Word) (value : Byte) : Prop where
  exclusive : ({ machine with memory := machine.memory.write8 place value } : Machine).ExclusiveOn window
  translate : ∀ other, ({ machine with memory := machine.memory.write8 place value } : Machine).translate other =
    machine.translate other
  mapped : ({ machine with memory := machine.memory.write8 place value } : Machine).MappedOn window =
    machine.MappedOn window
  bytes : ({ machine with memory := machine.memory.write8 place value } : Machine).bytesOn window =
    (machine.bytesOn window).write8 virtualAddr value
  entries : machine.SameEntries { machine with memory := machine.memory.write8 place value }

theorem write (exclusive : machine.ExclusiveOn window) (mapped : virtualAddr ∈ machine.MappedOn window)
    (found : machine.translate virtualAddr = some place) (value : Byte) :
    Written machine window virtualAddr place value := by
  obtain ⟨frame, frameFound, translated⟩ := translate_of_mapped mapped
  obtain rfl : frame + (virtualAddr &&& 0xFFF) = place := Option.some.inj (translated.symm.trans found)
  have aligned := frameOf_mod frameFound
  have nonnull : frame ≠ 0 := fun null => exclusive.nonnull virtualAddr mapped.1 (by rw [frameFound, null])
  have inFrame := offset_mem_frame aligned virtualAddr
  generalize spot : frame + (virtualAddr &&& 0xFFF) = place at *
  have same : Set.EqOn (machine.memory.write8 place value) machine.memory (frameSpan frame)ᶜ := by
    intro address outside
    exact ByteMemory.write8_of_ne fun equal => outside (equal ▸ inFrame)
  have kept : machine.TablesKept (machine.memory.write8 place value) :=
    tablesKept_of_clear aligned same (exclusive.apart.clear virtualAddr mapped.1 frame frameFound nonnull)
  have self := exclusive.tables.self
  have translate : ∀ other, ({ machine with memory := machine.memory.write8 place value } : Machine).translate other =
      machine.translate other := by
    intro other
    rw [translate_eq_frameOf, translate_eq_frameOf, kept.frameOf self]
  refine ⟨⟨kept.tables exclusive.tables, kept.pagesApart self exclusive.apart, ?_, exclusive.zeroUsed, ?_⟩,
    translate, ?_, ?_, kept.sameEntries self⟩
  · intro address member
    rw [kept.frameOf self]
    exact exclusive.nonnull address member
  · intro slot inside present
    rw [Present, kept.directoryEntry self inside] at present
    rw [tableFrame, kept.directoryEntry self inside]
    exact exclusive.exhausted slot inside present
  · ext address
    rw [MappedOn, MappedOn, Set.mem_ofPred_eq, Set.mem_ofPred_eq, kept.frameOf self]
  · funext address
    by_cases here : address = virtualAddr
    · rw [here, ByteMemory.write8_self, bytes_of_translate mapped.1 ((translate _).trans found)]
      exact ByteMemory.write8_self ..
    · rw [ByteMemory.write8_of_ne here, bytesOn, bytesOn, translate address]
      split
      · rename_i member
        cases otherFound : machine.translate address with
        | none => rfl
        | some otherPlace =>
            refine ByteMemory.write8_of_ne fun equal => here ?_
            rw [equal] at otherFound
            exact exclusive.translate_injective member mapped.1 otherFound found
      · rfl

theorem load8 (mapped : virtualAddr ∈ machine.MappedOn window) :
    Machine.load8 virtualAddr machine = some (machine.bytesOn window virtualAddr) := by
  obtain ⟨frame, _, translated⟩ := translate_of_mapped mapped
  rw [Machine.load8, translated, Option.map_some, bytes_of_translate mapped.1 translated]

theorem span_lane {address : Word} (room : address.toNat + 4 ≤ 2 ^ 32) {region : Set Word}
    (inside : span address.toNat 4 ⊆ region) {lane : Nat} (small : lane < 4) :
    address + BitVec.ofNat 32 lane ∈ region := by
  refine inside ?_
  rw [mem_span]
  bv_omega

theorem load32 {address : Word} (room : address.toNat + 4 ≤ 2 ^ 32)
    (inside : span address.toNat 4 ⊆ machine.MappedOn window) :
    Machine.load32 address machine = some ((machine.bytesOn window).read32 address) := by
  have lane := fun lane small => load8 (@span_lane address room (machine.MappedOn window) inside lane small)
  have lane0 := lane 0 (by decide)
  have lane1 := lane 1 (by decide)
  have lane2 := lane 2 (by decide)
  have lane3 := lane 3 (by decide)
  rw [show BitVec.ofNat 32 0 = 0#32 from rfl, BitVec.add_zero] at lane0
  simp only [Machine.load32, lane0, show Machine.load8 (address + 1) machine = _ from lane1,
    show Machine.load8 (address + 2) machine = _ from lane2, show Machine.load8 (address + 3) machine = _ from lane3,
    Option.bind_eq_bind, Option.bind_some]
  rfl

theorem store8 (exclusive : machine.ExclusiveOn window) (mapped : virtualAddr ∈ machine.MappedOn window) (value : Byte) :
    ∃ after, Machine.store8 virtualAddr value machine = some after ∧ after.ExclusiveOn window ∧
      after.MappedOn window = machine.MappedOn window ∧
      after.bytesOn window = (machine.bytesOn window).write8 virtualAddr value ∧
      machine.SameEntries after ∧ after.pmm = machine.pmm := by
  obtain ⟨frame, _, translated⟩ := translate_of_mapped mapped
  have written := exclusive.write mapped translated value
  exact ⟨_, by rw [Machine.store8, translated, Option.map_some], written.exclusive, written.mapped, written.bytes,
    written.entries, rfl⟩

/-- The four bytes are written one after the other; none of the writes moves the
translations, which were made before. -/
theorem store32 (exclusive : machine.ExclusiveOn window) {address : Word} (room : address.toNat + 4 ≤ 2 ^ 32)
    (inside : span address.toNat 4 ⊆ machine.MappedOn window) (value : Word) :
    ∃ after, Machine.store32 address value machine = some after ∧ after.ExclusiveOn window ∧
      after.MappedOn window = machine.MappedOn window ∧
      after.bytesOn window = (machine.bytesOn window).write32 address value ∧
      machine.SameEntries after ∧ after.pmm = machine.pmm := by
  have lane := fun lane small => @span_lane address room (machine.MappedOn window) inside lane small
  have lane0 := lane 0 (by decide)
  rw [show BitVec.ofNat 32 0 = 0#32 from rfl, BitVec.add_zero] at lane0
  have lane1 : address + 1 ∈ machine.MappedOn window := lane 1 (by decide)
  have lane2 : address + 2 ∈ machine.MappedOn window := lane 2 (by decide)
  have lane3 : address + 3 ∈ machine.MappedOn window := lane 3 (by decide)
  obtain ⟨frame0, _, place0⟩ := translate_of_mapped lane0
  obtain ⟨frame1, _, place1⟩ := translate_of_mapped lane1
  obtain ⟨frame2, _, place2⟩ := translate_of_mapped lane2
  obtain ⟨frame3, _, place3⟩ := translate_of_mapped lane3
  have written0 := exclusive.write lane0 place0 (byteOf value 0)
  have written1 := written0.exclusive.write (by rwa [written0.mapped]) ((written0.translate _).trans place1)
    (byteOf value 1)
  have written2 := written1.exclusive.write (by rwa [written1.mapped, written0.mapped])
    ((written1.translate _).trans ((written0.translate _).trans place2)) (byteOf value 2)
  have written3 := written2.exclusive.write (by rwa [written2.mapped, written1.mapped, written0.mapped])
    ((written2.translate _).trans ((written1.translate _).trans ((written0.translate _).trans place3)))
    (byteOf value 3)
  refine ⟨_, ?_, written3.exclusive, ?_, ?_,
    ((written0.entries.trans written1.entries).trans written2.entries).trans written3.entries, rfl⟩
  · simp only [Machine.store32, place0, place1, place2, place3, Option.bind_eq_bind, Option.bind_some]
  · rw [written3.mapped, written2.mapped, written1.mapped, written0.mapped]
  · rw [written3.bytes, written2.bytes, written1.bytes, written0.bytes]
    rfl

/-! `map_address` with a frame just taken. -/

/-- While a frame can still be taken, no table is on frame 0. -/
theorem nonnull_tables (exclusive : machine.ExclusiveOn window) (nonnull : machine.allocBlock.1 ≠ 0) :
    ∀ slot : Word, slot.toNat < 1024 → machine.Present slot → machine.tableFrame slot ≠ 0 :=
  fun slot inside present null => exclusive.exhausted slot inside present null (Pmm.allocBlock_nonnull nonnull)

theorem allocBlock (exclusive : machine.ExclusiveOn window) (nonnull : machine.allocBlock.1 ≠ 0) :
    machine.allocBlock.2.ExclusiveOn window where
  tables := exclusive.tables.allocBlock
  apart := exclusive.apart.allocBlock
  nonnull := exclusive.nonnull
  zeroUsed := Pmm.allocBlock_used exclusive.zeroUsed
  exhausted slot inside present null := absurd null (exclusive.nonnull_tables nonnull slot inside present)

/-- The frame of a page that was there already is given back. -/
theorem giveBack (exclusive : machine.ExclusiveOn window) (nonnull : machine.allocBlock.1 ≠ 0) :
    (freeBlock machine.allocBlock.1 machine.allocBlock.2).ExclusiveOn window := by
  have same : ∀ block, (freeBlock machine.allocBlock.1 machine.allocBlock.2).pmm.isBlockUsed block =
      machine.pmm.isBlockUsed block := Pmm.freeBlock_allocBlock nonnull
  refine ⟨exclusive.tables.of_directory rfl (fun _ _ => rfl) (fun slot inside present => ?_) exclusive.tables.tableZero,
    exclusive.apart.of_same subset_rfl (fun _ _ => rfl) (fun address member frame found notNull => ?_)
      exclusive.apart.clear, exclusive.nonnull, ?_, ?_⟩
  · rw [same]
    exact exclusive.tables.used slot inside present
  · rw [same]
    exact exclusive.apart.used address member frame found notNull
  · rw [same]
    exact exclusive.zeroUsed
  · exact fun slot inside present null => absurd null (exclusive.nonnull_tables nonnull slot inside present)

/-- Even the last frame can be spent: the table then lies on frame 0, where no
other table and no page is. -/
theorem newTable (exclusive : machine.ExclusiveOn window) (nonnull : machine.allocBlock.1 ≠ 0) (pdi : Word) :
    machine.allocBlock.2.NewTable pdi := by
  have tables := exclusive.tables.allocBlock
  intro absent
  by_cases null : machine.allocBlock.2.allocBlock.1 = 0
  · refine ⟨fun slot inside present same => ?_, ?_⟩
    · exact exclusive.nonnull_tables nonnull slot inside present (same.trans null)
    · rw [null]
      exact Pmm.allocBlock_used (Pmm.allocBlock_used exclusive.zeroUsed)
  · exact tables.newTable (fun _ => Pmm.allocBlock_nonnull null) absent

theorem pageOf_subset (member : virtualAddr ∈ window.pages) : pageOf virtualAddr ⊆ window.pages :=
  fun _ page => window.whole (mem_pageOf_iff.mp page) member

/-- A new table that got no frame shows that there was none left to get. -/
theorem mapped_exhausted (exclusive : machine.ExclusiveOn window)
    (inside : (getPageDirIndex virtualAddr).toNat < 1023) (nonnull : machine.allocBlock.1 ≠ 0) (flags slot : Word)
    (slotInside : slot.toNat < 1024)
    (present : (machine.allocBlock.2.mapped virtualAddr machine.allocBlock.1 flags).Present slot)
    (null : (machine.allocBlock.2.mapped virtualAddr machine.allocBlock.1 flags).tableFrame slot = 0) :
    ¬ (machine.allocBlock.2.mapped virtualAddr machine.allocBlock.1 flags).FrameFree := by
  intro free
  have tables := exclusive.tables.allocBlock
  have new := exclusive.newTable nonnull (getPageDirIndex virtualAddr)
  have entry := @mapped_directoryEntry machine.allocBlock.2 virtualAddr machine.allocBlock.1 flags tables inside new
    slot slotInside
  rw [Present, entry] at present
  rw [tableFrame, entry, ← tableFrame] at null
  rcases tableFrame_withTable tables inside new slotInside present with ⟨old, same⟩ | ⟨absent, _, same⟩
  · exact exclusive.nonnull_tables nonnull slot slotInside old (same.symm.trans null)
  · change (machine.allocBlock.2.withTable _).FrameFree at free
    rw [withTable_of_absent absent] at free
    have left : 0 < machine.allocBlock.2.pmm.allocBlock.2.getNumFreeBlocks := Pmm.getNumFreeBlocks_pos.mpr free
    rw [Pmm.getNumFreeBlocks_allocBlock] at left
    exact Pmm.allocBlock_second (Pmm.getNumFreeBlocks_pos.mp (Nat.lt_of_lt_of_le left (Nat.sub_le ..)))
      (same.symm.trans null)

theorem mapped {flags : Word} (exclusive : machine.ExclusiveOn window) (member : virtualAddr ∈ window.pages)
    (small : flags.toNat < 4096) (nonnull : machine.allocBlock.1 ≠ 0) :
    (machine.allocBlock.2.mapped virtualAddr machine.allocBlock.1 flags).ExclusiveOn window := by
  have inside := window.outside member
  have tables := exclusive.tables.allocBlock
  have new := exclusive.newTable nonnull (getPageDirIndex virtualAddr)
  have aligned : machine.allocBlock.1.toNat % 4096 = 0 := machine.pmm.allocBlock_mod
  have keep : FlagsKeep machine.allocBlock.1 flags := flagsKeep_of_lt aligned small
  have apart := exclusive.apart.take exclusive.tables inside new keep
  rw [Set.union_eq_left.mpr (pageOf_subset member)] at apart
  refine ⟨mapped_tables tables inside new, apart, fun address addressMember => ?_, ?_, ?_⟩
  · by_cases same : SamePage address virtualAddr
    · rw [mapped_frameOf_self tables inside new aligned keep same]
      exact fun null => nonnull (Option.some.inj null)
    · rw [mapped_frameOf_other tables inside new (window.outside addressMember) same]
      exact exclusive.nonnull address addressMember
  · exact withTable_used (Pmm.allocBlock_used exclusive.zeroUsed)
  · exact exclusive.mapped_exhausted inside nonnull flags

/-- Pages that keep their frames keep their bytes. -/
theorem mapped_bytes {flags : Word} (exclusive : machine.ExclusiveOn window)
    (inside : (getPageDirIndex virtualAddr).toNat < 1023) (nonnull : machine.allocBlock.1 ≠ 0)
    (after : (machine.allocBlock.2.mapped virtualAddr machine.allocBlock.1 flags).ExclusiveOn window)
    (same : ∀ address ∈ machine.MappedOn window,
      (machine.allocBlock.2.mapped virtualAddr machine.allocBlock.1 flags).frameOf address = machine.frameOf address) :
    machine.MappedOn window ⊆ (machine.allocBlock.2.mapped virtualAddr machine.allocBlock.1 flags).MappedOn window ∧
    Set.EqOn ((machine.allocBlock.2.mapped virtualAddr machine.allocBlock.1 flags).bytesOn window)
      (machine.bytesOn window) (machine.MappedOn window) := by
  have tables := exclusive.tables.allocBlock
  have new := exclusive.newTable nonnull (getPageDirIndex virtualAddr)
  refine ⟨fun address there => ⟨there.1, ?_⟩, fun address there => ?_⟩
  · rw [same address there]
    exact there.2
  · obtain ⟨frame, found, translated⟩ := translate_of_mapped there
    have foundAfter := (same address there).trans found
    have translatedAfter :
        (machine.allocBlock.2.mapped virtualAddr machine.allocBlock.1 flags).translate address =
          some (frame + (address &&& 0xFFF)) := by
      rw [translate_eq_frameOf, foundAfter, Option.map_some]
    have notNull : frame ≠ 0 := fun null => exclusive.nonnull address there.1 (by rw [found, null])
    rw [bytes_of_translate there.1 translated, bytes_of_translate there.1 translatedAfter]
    exact mapped_memory_kept tables inside new (frameOf_mod found)
      (after.apart.clear address there.1 frame foundAfter notNull) (offset_mem_frame (frameOf_mod found) address)

/-- Pages that were there keep their frames and their bytes. -/
theorem mapped_keeps {flags : Word} (exclusive : machine.ExclusiveOn window) (member : virtualAddr ∈ window.pages)
    (small : flags.toNat < 4096) (nonnull : machine.allocBlock.1 ≠ 0)
    (unmapped : machine.frameOf virtualAddr = none) :
    machine.MappedOn window ⊆ (machine.allocBlock.2.mapped virtualAddr machine.allocBlock.1 flags).MappedOn window ∧
    Set.EqOn ((machine.allocBlock.2.mapped virtualAddr machine.allocBlock.1 flags).bytesOn window)
      (machine.bytesOn window) (machine.MappedOn window) ∧
    pageOf virtualAddr ⊆ (machine.allocBlock.2.mapped virtualAddr machine.allocBlock.1 flags).MappedOn window ∧
    (machine.allocBlock.2.mapped virtualAddr machine.allocBlock.1 flags).MappedOn window ⊆
      machine.MappedOn window ∪ pageOf virtualAddr := by
  have inside := window.outside member
  have tables := exclusive.tables.allocBlock
  have new := exclusive.newTable nonnull (getPageDirIndex virtualAddr)
  have aligned : machine.allocBlock.1.toNat % 4096 = 0 := machine.pmm.allocBlock_mod
  have keep : FlagsKeep machine.allocBlock.1 flags := flagsKeep_of_lt aligned small
  have after := exclusive.mapped member small nonnull
  have same : ∀ address ∈ machine.MappedOn window,
      (machine.allocBlock.2.mapped virtualAddr machine.allocBlock.1 flags).frameOf address =
        machine.frameOf address := by
    intro address there
    refine mapped_frameOf_other tables inside new (window.outside there.1) fun page => ?_
    have absent : machine.frameOf address = none := by
      rw [frameOf, walk_samePage page]
      exact unmapped
    have some := there.2
    rw [absent] at some
    simp at some
  obtain ⟨grows, bytes⟩ := exclusive.mapped_bytes inside nonnull after same
  refine ⟨grows, bytes, fun address page => ?_, fun address there => ?_⟩
  · refine ⟨pageOf_subset member page, ?_⟩
    rw [mapped_frameOf_self tables inside new aligned keep (mem_pageOf_iff.mp page)]
    rfl
  · by_cases page : SamePage address virtualAddr
    · exact .inr (mem_pageOf_iff.mpr page)
    · have old := there.2
      rw [mapped_frameOf_other tables inside new (window.outside there.1) page] at old
      exact .inl ⟨there.1, old⟩

/-- A page elsewhere may be mapped with any flags. -/
theorem mapped_elsewhere (exclusive : machine.ExclusiveOn window)
    (inside : (getPageDirIndex virtualAddr).toNat < 1023) (elsewhere : virtualAddr ∉ window.pages)
    (nonnull : machine.allocBlock.1 ≠ 0) (flags : Word) :
    (machine.allocBlock.2.mapped virtualAddr machine.allocBlock.1 flags).ExclusiveOn window ∧
    machine.MappedOn window ⊆ (machine.allocBlock.2.mapped virtualAddr machine.allocBlock.1 flags).MappedOn window ∧
    Set.EqOn ((machine.allocBlock.2.mapped virtualAddr machine.allocBlock.1 flags).bytesOn window)
      (machine.bytesOn window) (machine.MappedOn window) := by
  have tables := exclusive.tables.allocBlock
  have new := exclusive.newTable nonnull (getPageDirIndex virtualAddr)
  obtain ⟨_, _, walks⟩ := tables.withTable inside new
  have tabled := exclusive.apart.allocBlock.withTable tables inside new
  have same : ∀ address ∈ window.pages,
      (machine.allocBlock.2.mapped virtualAddr machine.allocBlock.1 flags).frameOf address =
        machine.frameOf address := by
    intro address member
    refine mapped_frameOf_other tables inside new (window.outside member) fun page => elsewhere ?_
    exact window.whole (Eq.symm page) member
  have after : (machine.allocBlock.2.mapped virtualAddr machine.allocBlock.1 flags).ExclusiveOn window := by
    refine ⟨mapped_tables tables inside new, tabled.of_same subset_rfl (fun address member => ?_) tabled.used ?_,
      fun address member => ?_, withTable_used (Pmm.allocBlock_used exclusive.zeroUsed),
      exclusive.mapped_exhausted inside nonnull flags⟩
    · rw [same address member, frameOf, frameOf, walks address (window.outside member)]
      rfl
    · intro address member frame found notNull slot slotInside present
      have entry := @mapped_directoryEntry machine.allocBlock.2 virtualAddr machine.allocBlock.1 flags tables inside new
        slot slotInside
      rw [Present, entry] at present
      rw [tableFrame, entry]
      exact tabled.clear address member frame found notNull slot slotInside present
    · rw [same address member]
      exact exclusive.nonnull address member
  exact ⟨after, exclusive.mapped_bytes inside nonnull after fun address there => same address there.1⟩

end ExclusiveOn

theorem taken_mapped_size {flags : Word} (machine : Machine) :
    (machine.allocBlock.2.mapped virtualAddr machine.allocBlock.1 flags).pmm.gBitmapSize =
      machine.pmm.gBitmapSize :=
  (withTable_size machine.allocBlock.2 _).trans machine.pmm.gBitmapSize_allocBlock

/-- The window as flat memory. Mapping `NULL` is the one thing that breaks the view. -/
def viewOn (window : Window) : FlatView platform where
  Sound machine := machine.ExclusiveOn window
  bytes machine := machine.bytesOn window
  Mapped machine := machine.MappedOn window
  Globals := Nat
  globals machine := machine.pmm.gBitmapSize
  Allowed virtualAddr flags := virtualAddr ∈ window.pages ∧ flags.toNat < 4096
  Ready _ physicalAddr _ := physicalAddr ≠ 0
  load8 _ inside := ExclusiveOn.load8 inside
  load32 _ room inside := ExclusiveOn.load32 room inside
  store8 value sound inside := by
    obtain ⟨after, run, exclusive, mapped, bytes, _, pmm⟩ := sound.store8 inside value
    exact ⟨after, run, exclusive, mapped, by rw [pmm], bytes⟩
  store32 value sound room inside := by
    obtain ⟨after, run, exclusive, mapped, bytes, _, pmm⟩ := sound.store32 room inside value
    exact ⟨after, run, exclusive, mapped, by rw [pmm], bytes⟩
  allocBlock_null {machine} sound null := by
    have full : ¬ machine.FrameFree := fun free => Pmm.allocBlock_ne_zero sound.zeroUsed free null
    rcases machine.pmm.allocBlock_cases with ⟨_, taken⟩ | ⟨block, below, unused, _⟩
    · change ({ machine with pmm := machine.pmm.allocBlock.2 } : Machine) = machine
      rw [taken]
    · exact absurd ⟨block, below, unused⟩ full
  mapAddress {machine virtualAddr flags} sound allowed nonnull := by
    obtain ⟨member, small⟩ := allowed
    have tables := sound.tables.allocBlock
    have inside := window.outside member
    cases found : machine.frameOf virtualAddr with
    | some frame =>
        -- The page is there: nothing changes, and the frame may go back.
        have present : (machine.allocBlock.2.walk virtualAddr).isSome = true := by
          obtain ⟨entries, walked, _⟩ := Option.map_eq_some_iff.mp found
          exact Option.isSome_of_mem walked
        have page : pageOf virtualAddr ⊆ machine.MappedOn window := by
          intro address listed
          refine ⟨ExclusiveOn.pageOf_subset member listed, ?_⟩
          rw [frameOf, walk_samePage (mem_pageOf_iff.mp listed), ← frameOf, found]
          rfl
        refine ⟨false, machine.allocBlock.2, mapAddress_of_mapped tables inside present, ?_⟩
        rintro kept (rfl | ⟨_, rfl⟩)
        · exact ⟨sound.allocBlock nonnull, subset_rfl, fun _ _ => rfl, machine.pmm.gBitmapSize_allocBlock, page,
            Set.subset_union_left⟩
        · exact ⟨sound.giveBack nonnull, subset_rfl, fun _ _ => rfl, machine.pmm.gBitmapSize_allocBlock, page,
            Set.subset_union_left⟩
    | none =>
        have new := sound.newTable nonnull (getPageDirIndex virtualAddr)
        have unmapped : machine.allocBlock.2.walk virtualAddr = none := Option.map_eq_none_iff.mp found
        refine ⟨true, _, mapAddress_of_unmapped tables inside new unmapped, ?_⟩
        rintro kept (rfl | ⟨refused, _⟩)
        · obtain ⟨grows, bytes, page, only⟩ := sound.mapped_keeps member small nonnull found
          exact ⟨sound.mapped member small nonnull, grows, bytes, taken_mapped_size machine, page, only⟩
        · simp at refused

abbrev view : FlatView platform := viewOn managedWindow

/-- A round of the mapping loop elsewhere, with any flags. -/
theorem roundKeeps_elsewhere (inside : (getPageDirIndex virtualAddr).toNat < 1023)
    (elsewhere : virtualAddr ∉ window.pages) (flags : Word) (exclusive : machine.ExclusiveOn window) :
    RoundKeeps (viewOn window) flags virtualAddr machine := by
  intro nonnull
  have tables := exclusive.tables.allocBlock
  cases found : machine.allocBlock.2.walk virtualAddr with
  | some entries =>
      have present : (machine.allocBlock.2.walk virtualAddr).isSome = true := Option.isSome_of_mem found
      refine ⟨false, machine.allocBlock.2, mapAddress_of_mapped tables inside present, ?_⟩
      exact ⟨exclusive.giveBack nonnull, subset_rfl, fun _ _ => rfl, machine.pmm.gBitmapSize_allocBlock⟩
  | none =>
      have new := exclusive.newTable nonnull (getPageDirIndex virtualAddr)
      obtain ⟨after, grows, bytes⟩ := exclusive.mapped_elsewhere inside elsewhere nonnull flags
      exact ⟨true, _, mapAddress_of_unmapped tables inside new found, after, grows, bytes, taken_mapped_size machine⟩

theorem ExclusiveOn.mono {smaller : Window} (exclusive : machine.ExclusiveOn window)
    (subset : smaller.pages ⊆ window.pages) : machine.ExclusiveOn smaller where
  tables := exclusive.tables
  apart := exclusive.apart.of_same subset (fun _ _ => rfl)
    (fun address member => exclusive.apart.used address (subset member))
    fun address member => exclusive.apart.clear address (subset member)
  nonnull address member := exclusive.nonnull address (subset member)
  zeroUsed := exclusive.zeroUsed
  exhausted := exclusive.exhausted

end Machine

end ScratchOs
