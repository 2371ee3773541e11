import ScratchOs.Paging.Runs

namespace ScratchOs

open Data

/-! The switch from the boot loader's tables to the kernel's.

Only the last step of `initialize_paging` writes `cr3`. What comes before it may
run out of frames and return, or fault: with no frame at all for a table, the
source clears the table that the page it writes through is entered in. -/

namespace Machine

/-- `installTables` without the switch. -/
def enterTables (pageDirectoryPa kernelMapPa identityMapPa : Word) (machine : Machine) : Option Machine := do
  let machine ← fillTable kernelMapVa (ptePresent ||| pteReadWrite) pagesPerTable kernelLoadAddr
    kernelVirtualAddr machine
  let machine ← fillTable identityMapVa ptePresent pagesPerTable 0 0 machine
  let machine ← store32 (entryAddress directoryVa (getPageDirIndex 0))
    (setFlag (setAddr 0 identityMapPa) pdePresent) machine
  let machine ← store32 (entryAddress directoryVa (getPageDirIndex kernelVirtualAddr))
    (setFlag (setAddr 0 kernelMapPa) (pdePresent ||| pdeReadWrite)) machine
  recursivelyMapPageDirectory pageDirectoryPa directoryVa machine

/-- `initialize_paging` up to the switch, with the directory to switch to; 0
where the source returns early. -/
def buildTables (machine : Machine) : Option (Word × Machine) := do
  let (pageDirectoryPa, machine) ← allocatePageDirectory directoryVa machine
  if pageDirectoryPa = 0 then some (0, machine)
  else do
    let (kernelMapPa, machine) ← allocatePageTable kernelMapVa machine
    let (identityMapPa, machine) ← allocatePageTable identityMapVa machine
    if identityMapPa = 0 then some (0, machine)
    else do
      let machine ← enterTables pageDirectoryPa kernelMapPa identityMapPa machine
      some (pageDirectoryPa, machine)

theorem installTables_eq (directory kernel identity : Word) (machine : Machine) :
    installTables directory kernel identity machine =
      (enterTables directory kernel identity machine).map (switchCurrentPageDirectory directory) := by
  simp only [installTables, enterTables, Option.bind_eq_bind, Option.map_eq_bind, Option.bind_assoc,
    Function.comp_def]

/-- The switch is the last step, and a null directory is not switched to. -/
theorem initializePaging_eq (machine : Machine) :
    initializePaging machine =
      (buildTables machine).map fun built => switchCurrentPageDirectory built.1 built.2 := by
  rw [initializePaging, buildTables]
  cases allocatePageDirectory directoryVa machine with
  | none => rfl
  | some first =>
      obtain ⟨directory, machine1⟩ := first
      simp only [Option.bind_eq_bind, Option.bind_some]
      by_cases null : directory = 0
      · simp [null, switchCurrentPageDirectory]
      simp only [null, if_false]
      cases allocatePageTable kernelMapVa machine1 with
      | none => rfl
      | some second =>
          obtain ⟨kernel, machine2⟩ := second
          simp only [Option.bind_some]
          cases allocatePageTable identityMapVa machine2 with
          | none => rfl
          | some third =>
              obtain ⟨identity, machine3⟩ := third
              simp only [Option.bind_some]
              split
              · rfl
              · rw [installTables_eq]
                cases enterTables directory kernel identity machine3 <;> rfl

/-! What the steps before the switch leave alone, whatever the tables hold. -/

variable {machine middle after : Machine} {virtualAddr physicalAddr flags value pageVa pagePa : Word}

/-- No step before the switch touches `cr3`, and none gives a frame back. -/
structure OnlyTakes (machine after : Machine) : Prop where
  cr3 : after.cr3 = machine.cr3
  free : after.pmm.getNumFreeBlocks ≤ machine.pmm.getNumFreeBlocks
  used : ∀ block, machine.pmm.isBlockUsed block = true → after.pmm.isBlockUsed block = true

theorem OnlyTakes.refl (machine : Machine) : machine.OnlyTakes machine := ⟨rfl, Nat.le_refl _, fun _ used => used⟩

theorem OnlyTakes.trans (first : machine.OnlyTakes middle) (second : middle.OnlyTakes after) :
    machine.OnlyTakes after :=
  ⟨second.cr3.trans first.cr3, Nat.le_trans second.free first.free,
    fun block used => second.used block (first.used block used)⟩

theorem onlyTakes_allocBlock (machine : Machine) : machine.OnlyTakes machine.allocBlock.2 where
  cr3 := rfl
  free := by
    change machine.pmm.allocBlock.2.getNumFreeBlocks ≤ _
    rw [Pmm.getNumFreeBlocks_allocBlock]
    omega
  used _ := Pmm.allocBlock_used

theorem store8_onlyTakes {byte : Byte} (stored : store8 virtualAddr byte machine = some after) :
    machine.OnlyTakes after := by
  obtain ⟨place, _, rfl⟩ := Option.map_eq_some_iff.mp stored
  exact ⟨rfl, Nat.le_refl _, fun _ used => used⟩

theorem store32_onlyTakes (stored : store32 virtualAddr value machine = some after) : machine.OnlyTakes after := by
  simp only [store32, Option.bind_eq_bind, Option.bind_eq_some_iff] at stored
  obtain ⟨_, _, _, _, _, _, _, _, result⟩ := stored
  cases result
  exact ⟨rfl, Nat.le_refl _, fun _ used => used⟩

theorem memset_onlyTakes {byte : Byte} {count : Nat} (run : memset virtualAddr byte count machine = some after) :
    machine.OnlyTakes after := by
  induction count generalizing virtualAddr machine with
  | zero =>
      cases run
      exact .refl _
  | succ count ih =>
      obtain ⟨next, stored, rest⟩ := Option.bind_eq_some_iff.mp run
      exact (store8_onlyTakes stored).trans (ih rest)

theorem fillTable_onlyTakes {left : Nat} (run : fillTable pageVa flags left physicalAddr virtualAddr machine = some after) :
    machine.OnlyTakes after := by
  induction left generalizing physicalAddr virtualAddr machine with
  | zero =>
      cases run
      exact .refl _
  | succ left ih =>
      obtain ⟨next, stored, rest⟩ := Option.bind_eq_some_iff.mp run
      exact (store32_onlyTakes stored).trans (ih rest)

theorem createPageTable_onlyTakes {pdi : Word} (run : createPageTable pdi machine = some after) :
    machine.OnlyTakes after := by
  obtain ⟨entered, stored, cleared⟩ := Option.bind_eq_some_iff.mp run
  exact ((onlyTakes_allocBlock machine).trans (store32_onlyTakes stored)).trans (memset_onlyTakes cleared)

theorem mapAddress_onlyTakes {mapped : Bool}
    (run : mapAddress virtualAddr physicalAddr flags machine = some (mapped, after)) : machine.OnlyTakes after := by
  let ptEntry := entryAddress (getPageTableVirtualAddr (getPageDirIndex virtualAddr)) (getPageTableIndex virtualAddr)
  -- The part behind the table, which both branches end in.
  have entered : ∀ opened : Machine, (do
      let pte ← load32 ptEntry opened
      if testFlag pte ptePresent then some (false, opened)
      else do
        let machine ← store32 ptEntry (setAddr pte physicalAddr) opened
        let pte ← load32 ptEntry machine
        let machine ← store32 ptEntry (setFlag pte (ptePresent ||| flags)) machine
        some (true, machine)) = some (mapped, after) → opened.OnlyTakes after := by
    intro opened rest
    obtain ⟨pte, _, rest⟩ := Option.bind_eq_some_iff.mp rest
    split at rest
    · cases rest
      exact .refl _
    · simp only [Option.bind_eq_bind, Option.bind_eq_some_iff] at rest
      obtain ⟨addressed, stored, _, _, done, flagged, result⟩ := rest
      cases result
      exact (store32_onlyTakes stored).trans (store32_onlyTakes flagged)
  rw [mapAddress] at run
  obtain ⟨pde, _, run⟩ := Option.bind_eq_some_iff.mp run
  split at run
  · exact entered machine run
  · obtain ⟨opened, created, rest⟩ := Option.bind_eq_some_iff.mp run
    exact (createPageTable_onlyTakes created).trans (entered opened rest)

/-- A page is on the frame asked for first or, if it was mapped before, none is returned. -/
theorem allocatePage_onlyTakes (run : allocatePage pageVa machine = some (pagePa, after)) :
    machine.allocBlock.2.OnlyTakes after ∧ (pagePa = machine.allocBlock.1 ∨ pagePa = 0) := by
  obtain ⟨⟨mapped, entered⟩, mapping, run⟩ := Option.bind_eq_some_iff.mp run
  have first := mapAddress_onlyTakes mapping
  dsimp only at run
  split at run
  · obtain ⟨cleared, clearing, result⟩ := Option.bind_eq_some_iff.mp run
    cases result
    exact ⟨first.trans (memset_onlyTakes clearing), .inl rfl⟩
  · cases run
    exact ⟨first, .inr rfl⟩

theorem enterTables_onlyTakes {directory kernel identity : Word}
    (run : enterTables directory kernel identity machine = some after) : machine.OnlyTakes after := by
  simp only [enterTables, recursivelyMapPageDirectory, Option.bind_eq_bind, Option.bind_eq_some_iff] at run
  obtain ⟨machine1, fill1, machine2, fill2, machine3, store3, machine4, store4, store5⟩ := run
  refine ((fillTable_onlyTakes fill1).trans (fillTable_onlyTakes fill2)).trans ?_
  exact ((store32_onlyTakes store3).trans (store32_onlyTakes store4)).trans (store32_onlyTakes store5)

/-- Every way through `initialize_paging` up to the switch: it stops without a
directory, without the identity map, or with all its tables entered. -/
theorem buildTables_cases {directory : Word} (run : buildTables machine = some (directory, after)) :
    (directory = 0 ∧ machine.allocBlock.2.OnlyTakes after) ∨
    ∃ machine1 machine2 machine3, machine.allocBlock.2.OnlyTakes machine1 ∧ machine1.allocBlock.2.OnlyTakes machine2 ∧
      machine2.allocBlock.2.OnlyTakes machine3 ∧ machine3.OnlyTakes after ∧
      (directory = 0 ∨ machine2.allocBlock.1 ≠ 0) := by
  obtain ⟨⟨first, machine1⟩, run1, run⟩ := Option.bind_eq_some_iff.mp run
  obtain ⟨takes1, _⟩ := allocatePage_onlyTakes run1
  dsimp only at run
  split at run
  · cases run
    exact .inl ⟨rfl, takes1⟩
  · obtain ⟨⟨kernel, machine2⟩, run2, run⟩ := Option.bind_eq_some_iff.mp run
    obtain ⟨⟨identity, machine3⟩, run3, run⟩ := Option.bind_eq_some_iff.mp run
    obtain ⟨takes2, _⟩ := allocatePage_onlyTakes run2
    obtain ⟨takes3, found⟩ := allocatePage_onlyTakes run3
    refine .inr ⟨machine1, machine2, machine3, takes1, takes2, takes3, ?_⟩
    dsimp only at run
    split at run
    · cases run
      exact ⟨.refl _, .inl rfl⟩
    · rename_i nonnull
      obtain ⟨entered, entering, result⟩ := Option.bind_eq_some_iff.mp run
      cases result
      refine ⟨enterTables_onlyTakes entering, .inr ?_⟩
      rcases found with same | null
      · rwa [← same]
      · exact absurd null nonnull

theorem buildTables_onlyTakes {directory : Word} (run : buildTables machine = some (directory, after)) :
    machine.OnlyTakes after := by
  have first := onlyTakes_allocBlock machine
  rcases buildTables_cases run with ⟨_, takes⟩ | ⟨machine1, machine2, machine3, takes1, takes2, takes3, takes, _⟩
  · exact first.trans takes
  · have second := (onlyTakes_allocBlock machine1).trans takes2
    have third := (onlyTakes_allocBlock machine2).trans takes3
    exact (((first.trans takes1).trans second).trans third).trans takes

/-- With fewer than two frames there is nothing to switch to. -/
theorem buildTables_exhausted {directory : Word} (few : machine.pmm.getNumFreeBlocks < 2)
    (run : buildTables machine = some (directory, after)) :
    directory = 0 ∧ after.pmm.getNumFreeBlocks = 0 := by
  have left : machine.allocBlock.2.pmm.getNumFreeBlocks = machine.pmm.getNumFreeBlocks - 1 :=
    Pmm.getNumFreeBlocks_allocBlock
  rcases buildTables_cases run with ⟨null, takes⟩ | ⟨machine1, machine2, machine3, takes1, takes2, takes3, takes, found⟩
  · have free := takes.free
    exact ⟨null, by omega⟩
  · have free1 := takes1.free
    have free2 := ((onlyTakes_allocBlock machine1).trans takes2).free
    have free3 := (((onlyTakes_allocBlock machine2).trans takes3).trans takes).free
    refine ⟨found.resolve_right fun nonnull => ?_, by omega⟩
    have positive := Pmm.getNumFreeBlocks_pos.mpr (Pmm.allocBlock_nonnull nonnull)
    omega

/-! What a directory with the three slots translates. -/

variable {table : Word}

theorem translate_of_filled (present : machine.Present (getPageDirIndex virtualAddr))
    (filled : TableFilled machine.memory (machine.tableFrame (getPageDirIndex virtualAddr)) physicalAddr)
    (aligned : physicalAddr.toNat % 4096 = 0) (room : physicalAddr.toNat + 0x400000 ≤ 2 ^ 32) :
    machine.translate virtualAddr = some (physicalAddr + BitVec.ofNat 32 (virtualAddr.toNat % 0x400000)) := by
  obtain ⟨flagged, frame⟩ := filled _ (getPageTableIndex_lt virtualAddr)
  rw [translate, walk_of_present present, entry, tableEntry, ← tableFrame, if_pos flagged, Option.map_some, frame]
  congr 1
  have index := getPageTableIndex_toNat virtualAddr
  have offset := offset_toNat virtualAddr
  apply BitVec.eq_of_toNat_eq
  rw [BitVec.toNat_add, BitVec.toNat_add, getAddr_toNat, BitVec.toNat_add, offset, index, BitVec.toNat_ofNat,
    BitVec.toNat_ofNat]
  omega

/-- The identity map of the first four megabytes, the kernel's four megabytes
and nothing else below the recursive window. -/
structure Windows (machine : Machine) : Prop where
  identity : ∀ virtualAddr : Word, virtualAddr.toNat < 0x400000 → machine.translate virtualAddr = some virtualAddr
  kernel : ∀ virtualAddr : Word, 0xC0000000 ≤ virtualAddr.toNat → virtualAddr.toNat < 0xC0400000 →
    machine.translate virtualAddr = some (virtualAddr - kernelVirtualAddr + kernelLoadAddr)
  others : ∀ virtualAddr : Word, 0x400000 ≤ virtualAddr.toNat → virtualAddr.toNat < 0xFFC00000 →
    ¬ (0xC0000000 ≤ virtualAddr.toNat ∧ virtualAddr.toNat < 0xC0400000) → machine.translate virtualAddr = none

theorem getPageDirIndex_of_toNat {slot : Word} (index : virtualAddr.toNat / 4194304 = slot.toNat) :
    getPageDirIndex virtualAddr = slot :=
  BitVec.eq_of_toNat_eq ((getPageDirIndex_toNat virtualAddr).trans index)

theorem ThreeSlots.windows {identity kernel : Word} (three : machine.ThreeSlots identity kernel) :
    machine.Windows where
  identity virtualAddr low := by
    have slot : getPageDirIndex virtualAddr = 0 := getPageDirIndex_of_toNat (Nat.div_eq_of_lt low)
    rw [translate_of_filled (by rw [slot]; exact three.identityPresent)
      (by rw [slot, three.identityFrame]; exact three.identityFilled) (by decide) (by decide), Nat.mod_eq_of_lt low,
      BitVec.ofNat_toNat, BitVec.setWidth_eq]
    exact congrArg some (BitVec.zero_add _)
  kernel virtualAddr lower upper := by
    have slot : getPageDirIndex virtualAddr = 768 := getPageDirIndex_of_toNat (by
      rw [show (768 : Word).toNat = 768 from rfl]
      omega)
    rw [translate_of_filled (by rw [slot]; exact three.kernelPresent)
      (by rw [slot, three.kernelFrame]; exact three.kernelFilled) (by decide) (by decide)]
    refine congrArg some (BitVec.eq_of_toNat_eq ?_)
    rw [BitVec.toNat_add, BitVec.toNat_add, BitVec.toNat_sub, BitVec.toNat_ofNat,
      show kernelLoadAddr.toNat = 0x100000 from rfl, show kernelVirtualAddr.toNat = 0xC0000000 from rfl]
    omega
  others virtualAddr lower upper outside := by
    have index := getPageDirIndex_toNat virtualAddr
    have zero := three.others (getPageDirIndex virtualAddr) (getPageDirIndex_lt _) (fun same => by
      rw [same, show (0 : Word).toNat = 0 from rfl] at index
      omega) (fun same => by
      rw [same, show (768 : Word).toNat = 768 from rfl] at index
      omega) (fun same => by
      rw [same, show (1023 : Word).toNat = 1023 from rfl] at index
      omega)
    rw [translate, walk_of_absent (by rw [Present, zero, testFlag_zero]; simp)]
    rfl

/-- With two frames `initialize_paging` returns. It has asked for four, and
with the fourth it has switched to tables of its own. -/
theorem initializePaging_returns {memory : ByteMemory} {pmm : Pmm}
    (reserved : ∀ block < 1024, pmm.isBlockUsed block = true) (two : 2 ≤ pmm.getNumFreeBlocks) :
    ∃ after, initializePaging (Stage2.machine memory pmm) = some after ∧
      after.pmm = pmm.allocBlock.2.allocBlock.2.allocBlock.2.allocBlock.2 ∧
      ((pmm.getNumFreeBlocks < 4 ∧ after.cr3 = Stage2.pagingDirectoryAddr) ∨
        ∃ identity kernel, after.ThreeSlots identity kernel) := by
  obtain ⟨directory, kernel, identity, machine1, machine2, machine3, pages, run1, run2, run3, directoryNonnull,
    identityNonnull, _, _, taken, ready⟩ := @allocatePages_spec memory pmm reserved two
  by_cases null : identity = 0
  · have built : buildTables (Stage2.machine memory pmm) = some (0, machine3) := by
      simp only [buildTables, run1, run2, run3, Option.bind_eq_bind, Option.bind_some, directoryNonnull, null,
        if_false, if_true]
    refine ⟨machine3, ?_, taken, .inl ⟨?_, (buildTables_onlyTakes built).cr3⟩⟩
    · rw [initializePaging_eq, built]
      rfl
    · by_contra four
      exact identityNonnull (by omega) null
  · obtain ⟨work, _⟩ := ready null
    obtain ⟨memory', run, three⟩ := work.install
    refine ⟨⟨memory', directory, machine3.pmm⟩, ?_, taken, .inr ⟨_, _, three⟩⟩
    simp only [initializePaging, run1, run2, run3, Option.bind_eq_bind, Option.bind_some, directoryNonnull, null,
      if_false, run]

/-- The first four megabytes are taken if everything free lies above them. -/
theorem reserved_of_high {pmm : Pmm} (high : ∀ block < pmm.gBitmapSize, pmm.isBlockUsed block = false → 1024 ≤ block)
    (some : 0 < pmm.getNumFreeBlocks) : ∀ block < 1024, pmm.isBlockUsed block = true := by
  intro block low
  obtain ⟨free, below, unused⟩ := Pmm.getNumFreeBlocks_pos.mp some
  have above := high free below unused
  by_contra notUsed
  have contrary := high block (by omega) (Bool.eq_false_iff.mpr notUsed)
  omega

/-- The switch keeps every translation the kernel runs on. Either `cr3` stays,
because `initialize_paging` returns early or faults before the switch, or the
new directory has the windows of the old one and nothing besides. -/
theorem initializePaging_keeps_translations (memory : ByteMemory) (pmm : Pmm)
    (high : ∀ block < pmm.gBitmapSize, pmm.isBlockUsed block = false → 1024 ≤ block) :
    (pmm.getNumFreeBlocks < 2 ∧ buildTables (Stage2.machine memory pmm) = none) ∨
    ∃ after, initializePaging (Stage2.machine memory pmm) = some after ∧
      (after.cr3 = (Stage2.machine memory pmm).cr3 ∨
        after.Windows ∧ ∀ virtualAddr : Word,
          virtualAddr.toNat < 0x400000 ∨ 0xC0000000 ≤ virtualAddr.toNat ∧ virtualAddr.toNat < 0xC0400000 →
            after.translate virtualAddr = (Stage2.machine memory pmm).translate virtualAddr) := by
  by_cases two : 2 ≤ pmm.getNumFreeBlocks
  · obtain ⟨after, run, _, ⟨_, same⟩ | ⟨identity, kernel, three⟩⟩ :=
      @initializePaging_returns memory pmm (reserved_of_high high (by omega)) two
    · exact .inr ⟨after, run, .inl same⟩
    · refine .inr ⟨after, run, .inr ⟨three.windows, fun virtualAddr inside => ?_⟩⟩
      have booted := (Stage2.threeSlots memory pmm).windows
      rcases inside with low | ⟨lower, upper⟩
      · rw [three.windows.identity _ low, booted.identity _ low]
      · rw [three.windows.kernel _ lower upper, booted.kernel _ lower upper]
  · cases building : buildTables (Stage2.machine memory pmm) with
    | none => exact .inl ⟨by omega, rfl⟩
    | some built =>
        obtain ⟨directory, built⟩ := built
        have few : (Stage2.machine memory pmm).pmm.getNumFreeBlocks < 2 := Nat.lt_of_not_le two
        have null := (buildTables_exhausted few building).1
        refine .inr ⟨built, ?_, .inl (buildTables_onlyTakes building).cr3⟩
        rw [initializePaging_eq, building, null]
        rfl

/-- With exactly the four frames it needs the kernel ends up on a directory of its own. -/
theorem initializePaging_keeps_translations_fourFrames : ∃ after,
    initializePaging (Stage2.machine (fun _ => 0) (framesLeft 4 (by decide))) = some after ∧ after.Windows := by
  have free : (framesLeft 4 (by decide)).getNumFreeBlocks = 4 := by decide +kernel
  have high : ∀ block < (framesLeft 4 (by decide)).gBitmapSize,
      (framesLeft 4 (by decide)).isBlockUsed block = false → 1024 ≤ block := by
    intro block _ unused
    by_contra low
    simp [framesLeft_reserved block (Nat.lt_of_not_le low)] at unused
  rcases initializePaging_keeps_translations (fun _ => 0) (framesLeft 4 (by decide)) high with
    ⟨few, _⟩ | ⟨after, run, same | ⟨windows, _⟩⟩
  · omega
  · -- The boot loader's directory lies in the reserved memory, the new one above it.
    obtain ⟨machine, booted, _, kernel⟩ := @initializePaging_spec (fun _ => 0) (framesLeft 4 (by decide))
      framesLeft_reserved (by omega)
    cases run.symm.trans booted
    obtain ⟨tables, _⟩ := kernel (by omega)
    have above := tables.high 1023 (by decide) tables.inv.tables.self.present
    rw [tableFrame, tables.inv.tables.self.address, Machine.directory, same] at above
    exact absurd above (by decide)
  · exact ⟨after, run, windows⟩

end Machine

end ScratchOs
