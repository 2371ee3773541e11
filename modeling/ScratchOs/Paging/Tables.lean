import ScratchOs.Paging.Map

namespace ScratchOs

open Data

/-! `map_address` seen from the hardware walk. -/

namespace Machine

def entry (machine : Machine) (pdi pti : Word) : Word := machine.tableEntry (machine.directoryEntry pdi) pti

/-- The tables do not share frames, the allocator knows their frames, and what
is not present is zero. -/
structure TablesSound (machine : Machine) : Prop where
  self : machine.SelfMapped
  used : ∀ pdi : Word, pdi.toNat < 1024 → machine.Present pdi →
    machine.pmm.isBlockUsed ((machine.tableFrame pdi).toNat / 4096) = true
  distinct : ∀ left right : Word, left.toNat < 1024 → right.toNat < 1024 → machine.Present left →
    machine.Present right → machine.tableFrame left = machine.tableFrame right → left = right
  directoryZero : ∀ pdi : Word, pdi.toNat < 1024 → ¬ machine.Present pdi → machine.directoryEntry pdi = 0
  tableZero : ∀ pdi pti : Word, pdi.toNat < 1023 → pti.toNat < 1024 → machine.Present pdi →
    testFlag (machine.entry pdi pti) ptePresent = false → machine.entry pdi pti = 0

variable {machine : Machine} {pdi pti slot index value frame : Word}

theorem TablesSound.apart_directory (tables : machine.TablesSound) (inside : pdi.toNat < 1023)
    (present : machine.Present pdi) : machine.tableFrame pdi ≠ machine.directory := by
  intro same
  have recursive : machine.tableFrame 1023 = machine.directory := tables.self.address
  have equal := tables.distinct pdi 1023 (by omega) (by decide) present tables.self.present
    (same.trans recursive.symm)
  rw [equal] at inside
  simp at inside

/-! Writing one entry. -/

theorem setEntry_directoryEntry (apart : machine.tableFrame pdi ≠ machine.directory) (within : pti.toNat < 1024)
    (inside : slot.toNat < 1024) :
    (machine.setEntry pdi pti value).directoryEntry slot = machine.directoryEntry slot := by
  refine directoryEntry_congr inside ?_
  exact (write_entry_outside (machine.tableFrame_mod pdi) within).mono
    (Set.subset_compl_iff_disjoint_left.mpr
      (frames_disjoint (machine.tableFrame_mod pdi) machine.directory_mod apart))

theorem setEntry_entry_self (apart : machine.tableFrame pdi ≠ machine.directory) (inside : pdi.toNat < 1024)
    (within : pti.toNat < 1024) (indexWithin : index.toNat < 1024) :
    (machine.setEntry pdi pti value).entry pdi index = if index = pti then value else machine.entry pdi index := by
  rw [entry, setEntry_directoryEntry apart within inside]
  exact read_entry_write (machine.tableFrame_mod pdi) within indexWithin

theorem setEntry_entry_apart (apart : machine.tableFrame pdi ≠ machine.directory) (within : pti.toNat < 1024)
    (inside : slot.toNat < 1024) (indexWithin : index.toNat < 1024)
    (different : machine.tableFrame pdi ≠ machine.tableFrame slot) :
    (machine.setEntry pdi pti value).entry slot index = machine.entry slot index := by
  rw [entry, setEntry_directoryEntry apart within inside]
  refine read_entry_congr (machine.tableFrame_mod slot) indexWithin ?_
  exact (write_entry_outside (machine.tableFrame_mod pdi) within).mono
    (Set.subset_compl_iff_disjoint_left.mpr
      (frames_disjoint (machine.tableFrame_mod pdi) (machine.tableFrame_mod slot) different))

theorem setEntry_setEntry (apart : machine.tableFrame pdi ≠ machine.directory) (inside : pdi.toNat < 1024)
    (within : pti.toNat < 1024) (first : Word) :
    (machine.setEntry pdi pti first).setEntry pdi pti value = machine.setEntry pdi pti value := by
  rw [setEntry, tableFrame, setEntry_directoryEntry apart within inside]
  simp only [setEntry, tableFrame, ByteMemory.write32_write32]

/-! Entering a table. -/

theorem enterTable_tableFrame (inside : pdi.toNat < 1024) (aligned : frame.toNat % 4096 = 0)
    (apart : frame ≠ machine.directory) : (machine.enterTable pdi frame).tableFrame pdi = frame := by
  rw [tableFrame, enterTable_directoryEntry inside inside aligned apart, if_pos rfl]
  conv_lhs => rw [← getAddr_of_aligned aligned]
  rw [getAddr_setFlag (by decide), getAddr_of_aligned aligned]

theorem enterTable_present (inside : pdi.toNat < 1024) (aligned : frame.toNat % 4096 = 0)
    (apart : frame ≠ machine.directory) : (machine.enterTable pdi frame).Present pdi := by
  rw [Present, enterTable_directoryEntry inside inside aligned apart, if_pos rfl]
  exact testFlag_setFlag_present ..

theorem enterTable_entry_self (inside : pdi.toNat < 1024) (within : pti.toNat < 1024)
    (aligned : frame.toNat % 4096 = 0) (apart : frame ≠ machine.directory) :
    (machine.enterTable pdi frame).entry pdi pti = 0 := by
  have address := enterTable_tableFrame inside aligned apart
  rw [tableFrame] at address
  rw [entry, tableEntry, address]
  exact read_entry_clearFrame aligned within

/-- Tables of other slots keep their entries; the directory itself is not meant. -/
theorem enterTable_entry_apart (inside : pdi.toNat < 1024) (slotInside : slot.toNat < 1024)
    (within : index.toNat < 1024) (aligned : frame.toNat % 4096 = 0) (apart : frame ≠ machine.directory)
    (different : slot ≠ pdi) (clear : frame ≠ machine.tableFrame slot)
    (notDirectory : machine.tableFrame slot ≠ machine.directory) :
    (machine.enterTable pdi frame).entry slot index = machine.entry slot index := by
  rw [entry, enterTable_directoryEntry inside slotInside aligned apart, if_neg different]
  refine read_entry_congr (machine.tableFrame_mod slot) within ?_
  refine (clearFrame_apart aligned (machine.tableFrame_mod slot) clear).trans ?_
  exact (write_entry_outside machine.directory_mod inside).mono (Set.subset_compl_iff_disjoint_left.mpr
    (frames_disjoint machine.directory_mod (machine.tableFrame_mod slot) notDirectory.symm))

/-! `map_address` as a table, if needed, and an entry. -/

def withTable (pdi : Word) (machine : Machine) : Machine :=
  if machine.Present pdi then machine else machine.allocBlock.2.enterTable pdi machine.allocBlock.1

theorem withTable_of_present (present : machine.Present pdi) : machine.withTable pdi = machine := if_pos present

theorem withTable_of_absent (absent : ¬ machine.Present pdi) :
    machine.withTable pdi = machine.allocBlock.2.enterTable pdi machine.allocBlock.1 := if_neg absent

/-- The window shows the table of the slot, and it is not the directory. -/
structure SlotOpen (machine : Machine) (pdi : Word) : Prop where
  self : machine.SelfMapped
  inside : pdi.toNat < 1024
  present : machine.Present pdi
  apart : machine.tableFrame pdi ≠ machine.directory

theorem SlotOpen.load (opened : machine.SlotOpen pdi) (within : pti.toNat < 1024) :
    load32 (entryAddress (getPageTableVirtualAddr pdi) pti) machine = some (machine.entry pdi pti) :=
  opened.self.load_entry opened.inside opened.present within

theorem SlotOpen.store (opened : machine.SlotOpen pdi) (within : pti.toNat < 1024) (value : Word) :
    store32 (entryAddress (getPageTableVirtualAddr pdi) pti) value machine =
      some (machine.setEntry pdi pti value) :=
  opened.self.store_entry opened.inside opened.present within value

theorem SlotOpen.of_directory (opened : machine.SlotOpen pdi) {after : Machine} (cr3 : after.cr3 = machine.cr3)
    (same : ∀ slot : Word, slot.toNat < 1024 → after.directoryEntry slot = machine.directoryEntry slot) :
    after.SlotOpen pdi where
  self := by
    constructor
    · rw [Present, same _ (by decide)]
      exact opened.self.present
    · rw [same _ (by decide), directory, cr3]
      exact opened.self.address
  inside := opened.inside
  present := by
    rw [Present, same _ opened.inside]
    exact opened.present
  apart := by
    rw [tableFrame, same _ opened.inside, directory, cr3]
    exact opened.apart

theorem SlotOpen.setEntry (opened : machine.SlotOpen pdi) (within : pti.toNat < 1024) (value : Word) :
    (machine.setEntry pdi pti value).SlotOpen pdi :=
  opened.of_directory rfl fun _ inside => setEntry_directoryEntry opened.apart within inside

/-- What the directory entry must be for `map_address` to reach the table. -/
structure SlotReady (machine : Machine) (pdi : Word) : Prop where
  self : machine.SelfMapped
  inside : pdi.toNat < 1023
  present : machine.Present pdi → machine.tableFrame pdi ≠ machine.directory
  absent : ¬ machine.Present pdi → machine.allocBlock.1 ≠ machine.directory

theorem SlotReady.withTable (ready : machine.SlotReady pdi) : (machine.withTable pdi).SlotOpen pdi := by
  have inside := ready.inside
  by_cases present : machine.Present pdi
  · rw [withTable_of_present present]
    exact ⟨ready.self, by omega, present, ready.present present⟩
  · rw [withTable_of_absent present]
    have aligned : machine.allocBlock.1.toNat % 4096 = 0 := machine.pmm.allocBlock_mod
    have apart : machine.allocBlock.1 ≠ machine.allocBlock.2.directory := ready.absent present
    have different : (1023 : Word) ≠ pdi := by
      rintro rfl
      simp at inside
    have recursive := enterTable_directoryEntry (show pdi.toNat < 1024 by omega) (show (1023 : Word).toNat < 1024 by decide)
      aligned apart
    rw [if_neg different] at recursive
    refine ⟨⟨?_, ?_⟩, by omega, enterTable_present (by omega) aligned apart, ?_⟩
    · rw [Present, recursive]
      exact ready.self.present
    · rw [recursive, enterTable_directory]
      exact ready.self.address
    · rw [enterTable_tableFrame (by omega) aligned apart, enterTable_directory]
      exact apart

def mappedEntry (pte physicalAddr flags : Word) : Word := setFlag (setAddr pte physicalAddr) (ptePresent ||| flags)

theorem testFlag_mappedEntry (pte physicalAddr flags : Word) :
    testFlag (mappedEntry pte physicalAddr flags) ptePresent = true := testFlag_setFlag_present ..

theorem getPageTableIndex_lt (virtualAddr : Word) : (getPageTableIndex virtualAddr).toNat < 1024 := by
  rw [getPageTableIndex_toNat]
  omega

theorem mapAddress_eq {virtualAddr physicalAddr flags : Word}
    (ready : machine.SlotReady (getPageDirIndex virtualAddr)) :
    mapAddress virtualAddr physicalAddr flags machine =
      let after := machine.withTable (getPageDirIndex virtualAddr)
      let pte := after.entry (getPageDirIndex virtualAddr) (getPageTableIndex virtualAddr)
      if testFlag pte ptePresent then some (false, after)
      else some (true, after.setEntry (getPageDirIndex virtualAddr) (getPageTableIndex virtualAddr)
        (mappedEntry pte physicalAddr flags)) := by
  have inside := ready.inside
  have within := getPageTableIndex_lt virtualAddr
  have opened := ready.withTable
  rw [mapAddress]
  simp only [ready.self.load_directory (show (getPageDirIndex virtualAddr).toNat < 1024 by omega),
    Option.bind_eq_bind, Option.bind_some]
  by_cases present : machine.Present (getPageDirIndex virtualAddr)
  · rw [withTable_of_present present] at opened ⊢
    simp only [if_pos present, opened.load within, opened.store within, (opened.setEntry within _).load within,
      (opened.setEntry within _).store within, setEntry_entry_self opened.apart opened.inside within within,
      setEntry_setEntry opened.apart opened.inside within, Option.bind_some, if_true, mappedEntry]
  · have created := createPageTable_eq ready.self inside machine.pmm.allocBlock_mod (ready.absent present)
    rw [withTable_of_absent present] at opened ⊢
    simp only [if_neg present, created, opened.load within, opened.store within,
      (opened.setEntry within _).load within, (opened.setEntry within _).store within,
      setEntry_entry_self opened.apart opened.inside within within,
      setEntry_setEntry opened.apart opened.inside within, Option.bind_some, if_true, mappedEntry]

/-! The walk over the tables. -/

variable {virtualAddr other : Word}

def SamePage (left right : Word) : Prop := left.toNat / 4096 = right.toNat / 4096

instance (left right : Word) : Decidable (SamePage left right) := inferInstanceAs (Decidable (_ = _))

theorem samePage_iff {left right : Word} : SamePage left right ↔
    getPageDirIndex left = getPageDirIndex right ∧ getPageTableIndex left = getPageTableIndex right := by
  rw [SamePage, ← BitVec.toNat_inj, ← BitVec.toNat_inj, getPageDirIndex_toNat, getPageDirIndex_toNat,
    getPageTableIndex_toNat, getPageTableIndex_toNat]
  omega

theorem walk_of_absent (absent : ¬ machine.Present (getPageDirIndex virtualAddr)) :
    machine.walk virtualAddr = none := if_neg absent

theorem walk_of_present (present : machine.Present (getPageDirIndex virtualAddr)) :
    machine.walk virtualAddr =
      if testFlag (machine.entry (getPageDirIndex virtualAddr) (getPageTableIndex virtualAddr)) ptePresent
      then some (machine.directoryEntry (getPageDirIndex virtualAddr),
        machine.entry (getPageDirIndex virtualAddr) (getPageTableIndex virtualAddr))
      else none := if_pos present

/-- A page goes through the same entries on two machines that agree on them. -/
theorem walk_congr {after : Machine}
    (directory : after.directoryEntry (getPageDirIndex virtualAddr) =
      machine.directoryEntry (getPageDirIndex virtualAddr))
    (table : machine.Present (getPageDirIndex virtualAddr) →
      after.entry (getPageDirIndex virtualAddr) (getPageTableIndex virtualAddr) =
        machine.entry (getPageDirIndex virtualAddr) (getPageTableIndex virtualAddr)) :
    after.walk virtualAddr = machine.walk virtualAddr := by
  by_cases present : machine.Present (getPageDirIndex virtualAddr)
  · have presentAfter : after.Present (getPageDirIndex virtualAddr) := by
      rw [Present, directory]
      exact present
    rw [walk_of_present present, walk_of_present presentAfter, table present, directory]
  · have absentAfter : ¬ after.Present (getPageDirIndex virtualAddr) := by
      rw [Present, directory]
      exact present
    rw [walk_of_absent present, walk_of_absent absentAfter]

theorem TablesSound.walk_setEntry_self (tables : machine.TablesSound)
    (inside : (getPageDirIndex virtualAddr).toNat < 1023)
    (present : machine.Present (getPageDirIndex virtualAddr)) (value : Word) :
    (machine.setEntry (getPageDirIndex virtualAddr) (getPageTableIndex virtualAddr) value).walk virtualAddr =
      if testFlag value ptePresent then some (machine.directoryEntry (getPageDirIndex virtualAddr), value)
      else none := by
  have apart := tables.apart_directory inside present
  have within := getPageTableIndex_lt virtualAddr
  have directory := @setEntry_directoryEntry machine _ _ _ value apart within
    (show (getPageDirIndex virtualAddr).toNat < 1024 by omega)
  rw [walk_of_present (by rw [Present, directory]; exact present),
    setEntry_entry_self apart (by omega) within within, if_pos rfl, directory]

theorem TablesSound.walk_setEntry_other (tables : machine.TablesSound) (inside : pdi.toNat < 1023)
    (present : machine.Present pdi) (within : pti.toNat < 1024)
    (otherInside : (getPageDirIndex other).toNat < 1023)
    (different : ¬ (getPageDirIndex other = pdi ∧ getPageTableIndex other = pti)) (value : Word) :
    (machine.setEntry pdi pti value).walk other = machine.walk other := by
  have apart := tables.apart_directory inside present
  have indexWithin := getPageTableIndex_lt other
  refine walk_congr (setEntry_directoryEntry apart within (by omega)) fun otherPresent => ?_
  by_cases same : getPageDirIndex other = pdi
  · have index : getPageTableIndex other ≠ pti := fun equal => different ⟨same, equal⟩
    rw [same, setEntry_entry_self apart (by omega) within indexWithin, if_neg index]
  · refine setEntry_entry_apart apart within (by omega) indexWithin fun equal => same ?_
    exact (tables.distinct _ _ (by omega) (by omega) present otherPresent equal).symm

/-- A fresh table holds nothing yet, so no page outside the window moves. -/
theorem SelfMapped.walk_enterTable (self : machine.SelfMapped) (inside : pdi.toNat < 1023)
    (absent : ¬ machine.Present pdi) (aligned : frame.toNat % 4096 = 0)
    (fresh : ∀ slot : Word, slot.toNat < 1024 → machine.Present slot → machine.tableFrame slot ≠ frame)
    (notDirectory : machine.Present (getPageDirIndex other) →
      machine.tableFrame (getPageDirIndex other) ≠ machine.directory) :
    (machine.enterTable pdi frame).walk other = machine.walk other := by
  have apart : frame ≠ machine.directory := by
    rw [← self.address]
    exact (fresh 1023 (by decide) self.present).symm
  have within := getPageTableIndex_lt other
  have otherInside : (getPageDirIndex other).toNat < 1024 := by
    rw [getPageDirIndex_toNat]
    omega
  by_cases same : getPageDirIndex other = pdi
  · subst same
    rw [walk_of_absent absent, walk_of_present (enterTable_present (by omega) aligned apart),
      enterTable_entry_self (by omega) within aligned apart, testFlag_zero, if_neg (by simp)]
  · refine walk_congr ?_ fun present => ?_
    · rw [enterTable_directoryEntry (by omega) otherInside aligned apart, if_neg same]
    · exact enterTable_entry_apart (by omega) otherInside within aligned apart same
        (fresh _ otherInside present).symm (notDirectory present)

/-! Both edits keep the tables sound. -/

theorem TablesSound.of_directory (tables : machine.TablesSound) {after : Machine} (cr3 : after.cr3 = machine.cr3)
    (same : ∀ slot : Word, slot.toNat < 1024 → after.directoryEntry slot = machine.directoryEntry slot)
    (used : ∀ slot : Word, slot.toNat < 1024 → machine.Present slot →
      after.pmm.isBlockUsed ((machine.tableFrame slot).toNat / 4096) = true)
    (zero : ∀ slot index : Word, slot.toNat < 1023 → index.toNat < 1024 → machine.Present slot →
      testFlag (after.entry slot index) ptePresent = false → after.entry slot index = 0) :
    after.TablesSound where
  self := by
    constructor
    · rw [Present, same _ (by decide)]
      exact tables.self.present
    · rw [same _ (by decide), directory, cr3]
      exact tables.self.address
  used pdi inside present := by
    rw [Present, same _ inside] at present
    rw [tableFrame, same _ inside]
    exact used pdi inside present
  distinct left right leftInside rightInside leftPresent rightPresent equal := by
    rw [Present, same _ leftInside] at leftPresent
    rw [Present, same _ rightInside] at rightPresent
    rw [tableFrame, tableFrame, same _ leftInside, same _ rightInside] at equal
    exact tables.distinct left right leftInside rightInside leftPresent rightPresent equal
  directoryZero pdi inside absent := by
    rw [Present, same _ inside] at absent
    rw [same _ inside]
    exact tables.directoryZero pdi inside absent
  tableZero pdi pti inside within present absent := by
    rw [Present, same _ (by omega)] at present
    exact zero pdi pti inside within present absent

theorem TablesSound.setEntry (tables : machine.TablesSound) (inside : pdi.toNat < 1023)
    (present : machine.Present pdi) (within : pti.toNat < 1024)
    (clean : testFlag value ptePresent = false → value = 0) : (machine.setEntry pdi pti value).TablesSound := by
  have apart := tables.apart_directory inside present
  refine tables.of_directory rfl (fun _ slotInside => setEntry_directoryEntry apart within slotInside)
    tables.used fun slot index slotInside indexWithin slotPresent => ?_
  by_cases same : slot = pdi
  · rw [same, setEntry_entry_self apart (by omega) within indexWithin]
    split
    · exact clean
    · exact tables.tableZero pdi index inside indexWithin present
  · rw [setEntry_entry_apart apart within (by omega) indexWithin fun equal =>
      same (tables.distinct _ _ (by omega) (by omega) slotPresent present equal.symm)]
    exact tables.tableZero slot index slotInside indexWithin slotPresent

theorem TablesSound.enterTable (tables : machine.TablesSound) (inside : pdi.toNat < 1023)
    (aligned : frame.toNat % 4096 = 0)
    (fresh : ∀ slot : Word, slot.toNat < 1024 → machine.Present slot → machine.tableFrame slot ≠ frame)
    (used : machine.pmm.isBlockUsed (frame.toNat / 4096) = true) : (machine.enterTable pdi frame).TablesSound := by
  have apart : frame ≠ machine.directory := by
    rw [← tables.self.address]
    exact (fresh 1023 (by decide) tables.self.present).symm
  have entries := fun slot (slotInside : slot.toNat < 1024) =>
    @enterTable_directoryEntry machine pdi frame slot (by omega) slotInside aligned apart
  have mine := enterTable_tableFrame (show pdi.toNat < 1024 by omega) aligned apart
  -- Every slot but `pdi` is as it was; `pdi` has the fresh frame.
  have frames : ∀ slot : Word, slot.toNat < 1024 → slot ≠ pdi →
      (machine.enterTable pdi frame).tableFrame slot = machine.tableFrame slot := by
    intro slot slotInside different
    rw [tableFrame, entries slot slotInside, if_neg different, tableFrame]
  have presents : ∀ slot : Word, slot.toNat < 1024 → slot ≠ pdi →
      ((machine.enterTable pdi frame).Present slot ↔ machine.Present slot) := by
    intro slot slotInside different
    rw [Present, entries slot slotInside, if_neg different]
  have window : (1023 : Word) ≠ pdi := by
    rintro rfl
    simp at inside
  constructor
  · constructor
    · exact (presents 1023 (by decide) window).mpr tables.self.present
    · rw [enterTable_directory]
      exact (frames 1023 (by decide) window).trans tables.self.address
  · intro slot slotInside present
    by_cases same : slot = pdi
    · rw [same, mine]
      exact used
    · rw [frames slot slotInside same]
      exact tables.used slot slotInside ((presents slot slotInside same).mp present)
  · intro left right leftInside rightInside leftPresent rightPresent equal
    by_cases leftSame : left = pdi
    · by_cases rightSame : right = pdi
      · rw [leftSame, rightSame]
      · rw [leftSame, mine, frames right rightInside rightSame] at equal
        exact absurd equal.symm (fresh right rightInside ((presents right rightInside rightSame).mp rightPresent))
    · by_cases rightSame : right = pdi
      · rw [rightSame, mine, frames left leftInside leftSame] at equal
        exact absurd equal (fresh left leftInside ((presents left leftInside leftSame).mp leftPresent))
      · rw [frames left leftInside leftSame, frames right rightInside rightSame] at equal
        exact tables.distinct left right leftInside rightInside ((presents left leftInside leftSame).mp leftPresent)
          ((presents right rightInside rightSame).mp rightPresent) equal
  · intro slot slotInside absent
    by_cases same : slot = pdi
    · rw [same] at absent
      exact absurd (enterTable_present (by omega) aligned apart) absent
    · rw [presents slot slotInside same] at absent
      rw [entries slot slotInside, if_neg same]
      exact tables.directoryZero slot slotInside absent
  · intro slot index slotInside indexWithin present
    by_cases same : slot = pdi
    · rw [same, enterTable_entry_self (by omega) indexWithin aligned apart]
      exact fun _ => rfl
    · have old := (presents slot (by omega) same).mp present
      rw [enterTable_entry_apart (by omega) (by omega) indexWithin aligned apart same
        (fresh slot (by omega) old).symm (tables.apart_directory slotInside old)]
      exact tables.tableZero slot index slotInside indexWithin old

/-! `alloc_block` and the tables. -/

/-- A frame `alloc_block` may hand out. -/
abbrev FrameFree (machine : Machine) : Prop :=
  ∃ block < machine.pmm.gBitmapSize, machine.pmm.isBlockUsed block = false

theorem TablesSound.allocBlock (tables : machine.TablesSound) : machine.allocBlock.2.TablesSound := by
  refine tables.of_directory rfl (fun _ _ => rfl) (fun slot inside present => ?_) tables.tableZero
  exact Pmm.allocBlock_used (tables.used slot inside present)

/-- The frame the next table will get belongs to no table and is marked used
once it is taken. This is all `map_address` needs of the allocator. -/
def NewTable (machine : Machine) (pdi : Word) : Prop :=
  ¬ machine.Present pdi →
    (∀ slot : Word, slot.toNat < 1024 → machine.Present slot → machine.tableFrame slot ≠ machine.allocBlock.1) ∧
      machine.allocBlock.2.pmm.isBlockUsed (machine.allocBlock.1.toNat / 4096) = true

theorem TablesSound.newTable (tables : machine.TablesSound)
    (enough : ¬ machine.Present pdi → machine.FrameFree) : machine.NewTable pdi := by
  intro absent
  obtain ⟨unused, used⟩ := Pmm.allocBlock_taken (enough absent)
  refine ⟨fun slot inside present same => ?_, used⟩
  have tableUsed := tables.used slot inside present
  rw [same, show machine.allocBlock.1 = machine.pmm.allocBlock.1 from rfl, unused] at tableUsed
  simp at tableUsed

theorem TablesSound.withTable (tables : machine.TablesSound) (inside : pdi.toNat < 1023)
    (new : machine.NewTable pdi) :
    machine.SlotReady pdi ∧ (machine.withTable pdi).TablesSound ∧
      ∀ other : Word, (getPageDirIndex other).toNat < 1023 →
        (machine.withTable pdi).walk other = machine.walk other := by
  by_cases present : machine.Present pdi
  · rw [withTable_of_present present]
    exact ⟨⟨tables.self, inside, tables.apart_directory inside, absurd present⟩, tables, fun _ _ => rfl⟩
  · rw [withTable_of_absent present]
    obtain ⟨fresh, used⟩ := new present
    have aligned : machine.allocBlock.1.toNat % 4096 = 0 := machine.pmm.allocBlock_mod
    refine ⟨⟨tables.self, inside, tables.apart_directory inside, fun _ => ?_⟩,
      tables.allocBlock.enterTable inside aligned fresh used, fun other otherInside => ?_⟩
    · rw [← tables.self.address]
      exact (fresh 1023 (by decide) tables.self.present).symm
    · exact tables.allocBlock.self.walk_enterTable inside present aligned fresh (tables.apart_directory otherInside)

theorem mappedEntry_zero (physicalAddr flags : Word) :
    mappedEntry 0 physicalAddr flags = setFlag (getAddr physicalAddr) (ptePresent ||| flags) := by
  rw [mappedEntry, setAddr_zero]

/-- The page is there exactly when its entry has the present bit, and what is
not there is zero. -/
theorem TablesSound.entry_eq_zero (tables : machine.TablesSound)
    (inside : (getPageDirIndex virtualAddr).toNat < 1023)
    (present : machine.Present (getPageDirIndex virtualAddr)) (unmapped : machine.walk virtualAddr = none) :
    machine.entry (getPageDirIndex virtualAddr) (getPageTableIndex virtualAddr) = 0 := by
  rw [walk_of_present present] at unmapped
  refine tables.tableZero _ _ inside (getPageTableIndex_lt virtualAddr) present ?_
  by_contra set
  rw [if_pos (Bool.eq_true_of_not_eq_false set)] at unmapped
  simp at unmapped

theorem walk_isSome_present (mapped : (machine.walk virtualAddr).isSome = true) :
    machine.Present (getPageDirIndex virtualAddr) := by
  by_contra absent
  rw [walk_of_absent absent] at mapped
  simp at mapped

theorem mapAddress_of_mapped {physicalAddr flags : Word} (tables : machine.TablesSound)
    (inside : (getPageDirIndex virtualAddr).toNat < 1023) (mapped : (machine.walk virtualAddr).isSome = true) :
    mapAddress virtualAddr physicalAddr flags machine = some (false, machine) := by
  have present := walk_isSome_present mapped
  have set : testFlag (machine.entry (getPageDirIndex virtualAddr) (getPageTableIndex virtualAddr))
      ptePresent = true := by
    by_contra clear
    rw [walk_of_present present, if_neg clear] at mapped
    simp at mapped
  rw [mapAddress_eq ⟨tables.self, inside, tables.apart_directory inside, absurd present⟩,
    withTable_of_present present]
  exact if_pos set

/-- The machine after `map_address` has entered a page. -/
def mapped (virtualAddr physicalAddr flags : Word) (machine : Machine) : Machine :=
  (machine.withTable (getPageDirIndex virtualAddr)).setEntry (getPageDirIndex virtualAddr)
    (getPageTableIndex virtualAddr) (mappedEntry 0 physicalAddr flags)

theorem mapAddress_of_unmapped {physicalAddr flags : Word} (tables : machine.TablesSound)
    (inside : (getPageDirIndex virtualAddr).toNat < 1023) (new : machine.NewTable (getPageDirIndex virtualAddr))
    (unmapped : machine.walk virtualAddr = none) :
    mapAddress virtualAddr physicalAddr flags machine =
      some (true, machine.mapped virtualAddr physicalAddr flags) := by
  obtain ⟨ready, tablesAfter, walks⟩ := tables.withTable inside new
  have zero := tablesAfter.entry_eq_zero inside ready.withTable.present ((walks _ inside).trans unmapped)
  rw [mapAddress_eq ready]
  simp only [zero, testFlag_zero, Bool.false_eq_true, if_false, mapped]

/-- `map_address` against the hardware walk: it refuses a page that is there
and changes nothing; otherwise the page now leads to the frame with the flags,
and no other page outside the recursive window has moved. -/
theorem mapAddress_walk (machine : Machine) (tables : machine.TablesSound) (virtualAddr physicalAddr flags : Word)
    (outside : (getPageDirIndex virtualAddr).toNat < 1023) (flagsOnly : flags.toNat < 0x1000)
    (enough : ¬ machine.Present (getPageDirIndex virtualAddr) → machine.FrameFree) :
    ((machine.walk virtualAddr).isSome = true ∧
      mapAddress virtualAddr physicalAddr flags machine = some (false, machine)) ∨
    (machine.walk virtualAddr = none ∧ ∃ after pde pte,
      mapAddress virtualAddr physicalAddr flags machine = some (true, after) ∧
      after.walk virtualAddr = some (pde, pte) ∧
      getAddr pte = getAddr physicalAddr ∧ pte &&& 0xFFF = ptePresent ||| flags ∧
      ∀ other : Word, (getPageDirIndex other).toNat < 1023 → ¬ SamePage other virtualAddr →
        after.walk other = machine.walk other) := by
  cases found : machine.walk virtualAddr with
  | some entries => exact .inl ⟨rfl, mapAddress_of_mapped tables outside (by rw [found]; rfl)⟩
  | none =>
      have new := tables.newTable enough
      obtain ⟨ready, tablesAfter, walks⟩ := tables.withTable outside new
      have present := ready.withTable.present
      have small := present_flags_lt flagsOnly
      have walked := tablesAfter.walk_setEntry_self outside present (mappedEntry 0 physicalAddr flags)
      rw [if_pos (testFlag_mappedEntry ..)] at walked
      refine .inr ⟨rfl, _, _, _, mapAddress_of_unmapped tables outside new found, walked, ?_, ?_,
        fun other otherOutside different => ?_⟩
      · rw [mappedEntry_zero, getAddr_setFlag small]
      · rw [mappedEntry_zero, flags_setFlag small]
      · rw [samePage_iff] at different
        rw [mapped, tablesAfter.walk_setEntry_other outside present (getPageTableIndex_lt virtualAddr) otherOutside different,
          walks other otherOutside]

/-- A machine whose directory, in frame 1, has the recursive entry and nothing else. -/
def bareMachine : Machine where
  memory := ByteMemory.write32 (fun _ => 0) (entryAddress 0x1000 1023) 0x1003
  cr3 := 0x1000
  pmm := { words := fun _ => 3, gBitmapSize := 8, gBitmapSize_le := by decide }

theorem bareMachine_directoryEntry (inside : slot.toNat < 1024) :
    bareMachine.directoryEntry slot = if slot = 1023 then 0x1003 else 0 := by
  have read := @read_entry_write (fun _ => 0) 0x1000 1023 slot 0x1003 (by decide) (by decide) inside
  have zero : ByteMemory.read32 (fun _ => 0) (entryAddress 0x1000 slot) = 0 :=
    (by decide : joinBytes 0 0 0 0 = 0)
  rw [zero] at read
  rw [directoryEntry, directory, show getAddr bareMachine.cr3 = 0x1000 by decide]
  exact read

theorem bareMachine_present (inside : slot.toNat < 1024) : bareMachine.Present slot ↔ slot = 1023 := by
  rw [Present, bareMachine_directoryEntry inside]
  split
  · rename_i same
    simp only [same, iff_true]
    decide
  · rename_i different
    simp only [different, iff_false]
    decide

theorem bareMachine_tables : bareMachine.TablesSound where
  self := by
    constructor
    · exact (bareMachine_present (by decide)).mpr rfl
    · rw [bareMachine_directoryEntry (by decide)]
      decide
  used slot inside present := by
    rw [(bareMachine_present inside).mp present, tableFrame, bareMachine_directoryEntry (by decide)]
    decide
  distinct left right leftInside rightInside leftPresent rightPresent _ :=
    ((bareMachine_present leftInside).mp leftPresent).trans ((bareMachine_present rightInside).mp rightPresent).symm
  directoryZero slot inside absent := by
    rw [bareMachine_directoryEntry inside, if_neg fun last => absent ((bareMachine_present inside).mpr last)]
  tableZero slot index inside _ present := by
    rw [(bareMachine_present (by omega)).mp present] at inside
    simp at inside

theorem mapAddress_walk_bareMachine : ∃ after pde pte,
    mapAddress 0x400000 0x3000 0x02 bareMachine = some (true, after) ∧
      after.walk 0x400000 = some (pde, pte) ∧ getAddr pte = 0x3000 ∧ pte &&& 0xFFF = 0x03 := by
  have absent : ¬ bareMachine.Present (getPageDirIndex 0x400000) := by
    rw [bareMachine_present (by decide)]
    decide
  have outcome := mapAddress_walk bareMachine bareMachine_tables 0x400000 0x3000 0x02 (by decide) (by decide)
    (fun _ => ⟨2, by decide, by decide⟩)
  rcases outcome with ⟨mapped, _⟩ | ⟨_, after, pde, pte, run, walked, address, flags, _⟩
  · rw [walk_of_absent absent] at mapped
    simp at mapped
  · exact ⟨after, pde, pte, run, walked, address, flags⟩

end Machine

end ScratchOs
