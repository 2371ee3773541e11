import ScratchOs.Machine.Tlb
import ScratchOs.Paging.Switch

namespace ScratchOs

open Data

/-! `kernel/paging.c` on a processor with a TLB.

The functions are those of `Paging.Map` and `Paging.Boot`, cut into the accesses
the processor makes one after the other, with `invlpg` and the writes of `cr3`
where the source has them. Cached directory entries are not modelled. -/

namespace Tlb

inductive Op where
  | load8 (virtualAddr : Word)
  | load32 (virtualAddr : Word)
  | store8 (virtualAddr : Word) (value : Byte)
  | store32 (virtualAddr value : Word)
  | invlpg (virtualAddr : Word)
  | readCr3
  | writeCr3 (value : Word)
  | allocBlock
  | freeBlock (address : Word)

@[reducible] def Op.Answer : Op → Type
  | .load8 _ => Byte
  | .load32 _ | .readCr3 | .allocBlock => Word
  | .store8 .. | .store32 .. | .invlpg _ | .writeCr3 _ | .freeBlock _ => Unit

def alignTo4kb (addr : Word) : Word := addr &&& ~~~0xFFF

def pages : Op → Set Word
  | .load8 virtualAddr | .store8 virtualAddr _ => {alignTo4kb virtualAddr}
  | .load32 virtualAddr | .store32 virtualAddr _ =>
      {page | ∃ lane < 4, page = alignTo4kb (virtualAddr + BitVec.ofNat 32 lane)}
  | .invlpg _ | .readCr3 | .writeCr3 _ | .allocBlock | .freeBlock _ => ∅

/-- No page is global: the code never sets `CR4.PGE`. -/
def drops : Op → Word → Bool
  | .invlpg virtualAddr, page => alignTo4kb page = alignTo4kb virtualAddr
  | .writeCr3 _, _ => true
  | _, _ => false

def placeThrough (translation : Word → Option Word) (virtualAddr : Word) : Option Word :=
  (translation (alignTo4kb virtualAddr)).map fun frame => frame + (virtualAddr &&& 0xFFF)

/-- The places of a word's four bytes; it may cross into the next page. -/
def lanesThrough (translation : Word → Option Word) (virtualAddr : Word) : Option (Word × Word × Word × Word) := do
  let place0 ← placeThrough translation virtualAddr
  let place1 ← placeThrough translation (virtualAddr + 1)
  let place2 ← placeThrough translation (virtualAddr + 2)
  let place3 ← placeThrough translation (virtualAddr + 3)
  some (place0, place1, place2, place3)

def act (op : Op) (translation : Word → Option Word) (machine : Machine) : Option (op.Answer × Machine) :=
  match op with
  | .load8 virtualAddr => (placeThrough translation virtualAddr).map fun place => (machine.memory place, machine)
  | .load32 virtualAddr =>
      (lanesThrough translation virtualAddr).map fun (place0, place1, place2, place3) =>
        (joinBytes (machine.memory place0) (machine.memory place1) (machine.memory place2) (machine.memory place3),
          machine)
  | .store8 virtualAddr value =>
      (placeThrough translation virtualAddr).map fun place =>
        ((), { machine with memory := machine.memory.write8 place value })
  | .store32 virtualAddr value =>
      (lanesThrough translation virtualAddr).map fun (place0, place1, place2, place3) =>
        ((), { machine with
          memory := (((machine.memory.write8 place0 (byteOf value 0)).write8 place1 (byteOf value 1)).write8
            place2 (byteOf value 2)).write8 place3 (byteOf value 3) })
  | .invlpg _ => some ((), machine)
  | .readCr3 => some (machine.cr3, machine)
  | .writeCr3 value => some ((), { machine with cr3 := value })
  | .allocBlock => some machine.allocBlock
  | .freeBlock address => some ((), machine.freeBlock address)

theorem placeThrough_congr {left right : Word → Option Word} {virtualAddr : Word}
    (same : left (alignTo4kb virtualAddr) = right (alignTo4kb virtualAddr)) :
    placeThrough left virtualAddr = placeThrough right virtualAddr := by
  rw [placeThrough, placeThrough, same]

theorem lanesThrough_congr {left right : Word → Option Word} {virtualAddr : Word}
    (same : ∀ lane < 4, left (alignTo4kb (virtualAddr + BitVec.ofNat 32 lane)) =
      right (alignTo4kb (virtualAddr + BitVec.ofNat 32 lane))) :
    lanesThrough left virtualAddr = lanesThrough right virtualAddr := by
  have first := same 0 (by decide)
  rw [show BitVec.ofNat 32 0 = 0#32 from rfl, BitVec.add_zero] at first
  have rest := fun lane (small : lane < 4) => placeThrough_congr (same lane small)
  rw [lanesThrough, lanesThrough, placeThrough_congr first,
    show placeThrough left (virtualAddr + 1) = _ from rest 1 (by decide),
    show placeThrough left (virtualAddr + 2) = _ from rest 2 (by decide),
    show placeThrough left (virtualAddr + 3) = _ from rest 3 (by decide)]
  rfl

theorem act_congr {op : Op} {left right : Word → Option Word} (machine : Machine) (same : Set.EqOn left right (pages op)) :
    act op left machine = act op right machine := by
  cases op with
  | load8 virtualAddr | store8 virtualAddr value => rw [act, act, placeThrough_congr (same rfl)]
  | load32 virtualAddr | store32 virtualAddr value =>
      rw [act, act, lanesThrough_congr fun lane small => same ⟨lane, small, rfl⟩]
  | invlpg _ | readCr3 | writeCr3 _ | allocBlock | freeBlock _ => rfl

def system : Translated Machine Word Word Op Op.Answer where
  walk := Machine.frameOf
  pages := pages
  drops := drops
  act := act
  act_congr := act_congr

abbrev Cpu := Cached Machine Word Word

abbrev Code (α : Type) := Program Op Op.Answer α

/-! The functions of the source. -/

def perform (op : Op) : Code op.Answer := Program.op op

def load32 (virtualAddr : Word) : Code Word := perform (.load32 virtualAddr)
def store8 (virtualAddr : Word) (value : Byte) : Code Unit := perform (.store8 virtualAddr value)
def store32 (virtualAddr value : Word) : Code Unit := perform (.store32 virtualAddr value)
def allocBlock : Code Word := perform .allocBlock
def freeBlock (address : Word) : Code Unit := perform (.freeBlock address)

def invplg (virtualAddr : Word) : Code Unit := perform (.invlpg virtualAddr)

def flushTlb : Code Unit := do
  let cr3 ← perform .readCr3
  perform (.writeCr3 cr3)

def switchPdbr (newPdbr : Word) : Code Unit := perform (.writeCr3 newPdbr)

def memset (virtualAddr : Word) (value : Byte) : Nat → Code Unit
  | 0 => pure ()
  | count + 1 => do
      store8 virtualAddr value
      memset (virtualAddr + 1) value count

/-- The new table is entered, and the page it is seen through invalidated,
before the table is cleared. -/
def createPageTable (pdi : Word) : Code Unit := do
  let newPageTable ← allocBlock
  let newPdEntry := setFlag (setAddr 0 newPageTable) (pdePresent ||| pdeReadWrite)
  store32 (entryAddress pageDirBase pdi) newPdEntry
  invplg (getPageTableVirtualAddr pdi)
  memset (getPageTableVirtualAddr pdi) 0 pageTableSize

def enterPage (virtualAddr physicalAddr flags : Word) : Code Bool := do
  let ptEntry := entryAddress (getPageTableVirtualAddr (getPageDirIndex virtualAddr)) (getPageTableIndex virtualAddr)
  let pte ← load32 ptEntry
  if testFlag pte ptePresent then pure false
  else do
    store32 ptEntry (setAddr pte physicalAddr)
    let pte ← load32 ptEntry
    store32 ptEntry (setFlag pte (ptePresent ||| flags))
    pure true

def mapAddress (virtualAddr physicalAddr flags : Word) : Code Bool := do
  let pdi := getPageDirIndex virtualAddr
  let pde ← load32 (entryAddress pageDirBase pdi)
  if testFlag pde pdePresent then enterPage virtualAddr physicalAddr flags
  else do
    createPageTable pdi
    enterPage virtualAddr physicalAddr flags

def unmapAddress (virtualAddr : Word) : Code Unit := do
  let pdi := getPageDirIndex virtualAddr
  let pti := getPageTableIndex virtualAddr
  let pde ← load32 (entryAddress pageDirBase pdi)
  if testFlag pde pdePresent then do
    let ptEntry := entryAddress (getPageTableVirtualAddr pdi) pti
    let pte ← load32 ptEntry
    if testFlag pte ptePresent then do
      let frameAddr := getAddr pte
      store32 ptEntry 0
      invplg virtualAddr
      freeBlock frameAddr
    else pure ()
  else pure ()

def allocatePage (pageVa : Word) : Code Word := do
  let pagePa ← allocBlock
  let mapped ← mapAddress pageVa pagePa pteReadWrite
  if mapped then do
    memset pageVa 0 pageTableSize
    pure pagePa
  else pure 0

def allocatePageDirectory (pageDirectoryVa : Word) : Code Word := allocatePage pageDirectoryVa

def allocatePageTable (pageTableVa : Word) : Code Word := allocatePage pageTableVa

def switchCurrentPageDirectory (pageDirectoryPa : Word) : Code Unit :=
  if pageDirectoryPa = 0 then pure () else switchPdbr pageDirectoryPa

def recursivelyMapPageDirectory (pageDirectoryPa pageDirectoryVa : Word) : Code Unit :=
  store32 (entryAddress pageDirectoryVa 1023) (setFlag (setAddr 0 pageDirectoryPa) (pdePresent ||| pdeReadWrite))

def fillTable (tableVa flags : Word) : Nat → Word → Word → Code Unit
  | 0, _, _ => pure ()
  | left + 1, physicalAddr, virtualAddr => do
      store32 (entryAddress tableVa (getPageTableIndex virtualAddr)) (setFlag (setAddr 0 physicalAddr) flags)
      fillTable tableVa flags left (physicalAddr + 4096) (virtualAddr + 4096)

def enterTables (pageDirectoryPa kernelMapPa identityMapPa : Word) : Code Unit := do
  fillTable Machine.kernelMapVa (ptePresent ||| pteReadWrite) pagesPerTable kernelLoadAddr kernelVirtualAddr
  fillTable Machine.identityMapVa ptePresent pagesPerTable 0 0
  store32 (entryAddress Machine.directoryVa (getPageDirIndex 0)) (setFlag (setAddr 0 identityMapPa) pdePresent)
  store32 (entryAddress Machine.directoryVa (getPageDirIndex kernelVirtualAddr))
    (setFlag (setAddr 0 kernelMapPa) (pdePresent ||| pdeReadWrite))
  recursivelyMapPageDirectory pageDirectoryPa Machine.directoryVa

def initializePaging : Code Unit := do
  let pageDirectoryPa ← allocatePageDirectory Machine.directoryVa
  if pageDirectoryPa = 0 then pure ()
  else do
    let kernelMapPa ← allocatePageTable Machine.kernelMapVa
    if pageDirectoryPa = 0 then pure ()
    else do
      let identityMapPa ← allocatePageTable Machine.identityMapVa
      if identityMapPa = 0 then pure ()
      else do
        enterTables pageDirectoryPa kernelMapPa identityMapPa
        flushTlb
        switchCurrentPageDirectory pageDirectoryPa

/-! Without a cache they are the functions of `Paging.Map` and `Paging.Boot`. -/

variable {machine : Machine}

theorem alignTo4kb_eq (addr : Word) : alignTo4kb addr = getAddr addr := rfl

theorem samePage_alignTo4kb (virtualAddr : Word) : Machine.SamePage (alignTo4kb virtualAddr) virtualAddr := by
  rw [Machine.SamePage, alignTo4kb_eq, getAddr_toNat]
  omega

theorem frameOf_alignTo4kb (machine : Machine) (virtualAddr : Word) :
    machine.frameOf (alignTo4kb virtualAddr) = machine.frameOf virtualAddr := by
  rw [Machine.frameOf, Machine.frameOf, Machine.walk_samePage (samePage_alignTo4kb virtualAddr)]

theorem placeThrough_frameOf (machine : Machine) (virtualAddr : Word) :
    placeThrough machine.frameOf virtualAddr = machine.translate virtualAddr := by
  rw [placeThrough, frameOf_alignTo4kb, Machine.translate_eq_frameOf]

abbrev execute : (op : Op) → Machine → Option (op.Answer × Machine) := system.execute

abbrev run {α : Type} (code : Code α) (machine : Machine) : Option (α × Machine) := Program.run system.execute code machine

theorem execute_load8 (virtualAddr : Word) (machine : Machine) :
    execute (.load8 virtualAddr) machine = (Machine.load8 virtualAddr machine).map fun value => (value, machine) := by
  change (placeThrough machine.frameOf virtualAddr).map _ = _
  rw [placeThrough_frameOf, Machine.load8, Option.map_map]
  rfl

theorem execute_load32 (virtualAddr : Word) (machine : Machine) :
    execute (.load32 virtualAddr) machine = (Machine.load32 virtualAddr machine).map fun value => (value, machine) := by
  change (lanesThrough machine.frameOf virtualAddr).map _ = _
  simp only [lanesThrough, placeThrough_frameOf, Machine.load32, Machine.load8]
  cases machine.translate virtualAddr <;> cases machine.translate (virtualAddr + 1) <;>
    cases machine.translate (virtualAddr + 2) <;> cases machine.translate (virtualAddr + 3) <;> rfl

theorem execute_store8 (virtualAddr : Word) (value : Byte) (machine : Machine) :
    execute (.store8 virtualAddr value) machine = (Machine.store8 virtualAddr value machine).map fun after => ((), after) := by
  change (placeThrough machine.frameOf virtualAddr).map _ = _
  rw [placeThrough_frameOf, Machine.store8, Option.map_map]
  rfl

theorem execute_store32 (virtualAddr value : Word) (machine : Machine) :
    execute (.store32 virtualAddr value) machine =
      (Machine.store32 virtualAddr value machine).map fun after => ((), after) := by
  change (lanesThrough machine.frameOf virtualAddr).map _ = _
  simp only [lanesThrough, placeThrough_frameOf, Machine.store32]
  cases machine.translate virtualAddr <;> cases machine.translate (virtualAddr + 1) <;>
    cases machine.translate (virtualAddr + 2) <;> cases machine.translate (virtualAddr + 3) <;> rfl

section Run

variable {α β : Type} (machine : Machine)

theorem run_bind (code : Code α) (rest : α → Code β) :
    run (code >>= rest) machine = (run code machine).bind fun reply => run (rest reply.1) reply.2 :=
  Program.run_bind ..

theorem run_load32 (virtualAddr : Word) :
    run (load32 virtualAddr) machine = (Machine.load32 virtualAddr machine).map fun value => (value, machine) :=
  (Program.run_op ..).trans (execute_load32 virtualAddr machine)

theorem run_store8 (virtualAddr : Word) (value : Byte) :
    run (store8 virtualAddr value) machine = (Machine.store8 virtualAddr value machine).map fun after => ((), after) :=
  (Program.run_op ..).trans (execute_store8 virtualAddr value machine)

theorem run_store32 (virtualAddr value : Word) :
    run (store32 virtualAddr value) machine = (Machine.store32 virtualAddr value machine).map fun after => ((), after) :=
  (Program.run_op ..).trans (execute_store32 virtualAddr value machine)

theorem run_allocBlock : run allocBlock machine = some machine.allocBlock := rfl

theorem run_freeBlock (address : Word) : run (freeBlock address) machine = some ((), machine.freeBlock address) := rfl

theorem run_invplg (virtualAddr : Word) : run (invplg virtualAddr) machine = some ((), machine) := rfl

theorem run_flushTlb : run flushTlb machine = some ((), machine) := rfl

end Run

theorem run_memset (virtualAddr : Word) (value : Byte) (count : Nat) (machine : Machine) :
    run (memset virtualAddr value count) machine =
      (Machine.memset virtualAddr value count machine).map fun after => ((), after) := by
  induction count generalizing virtualAddr machine with
  | zero => rfl
  | succ count ih =>
      rw [memset, run_bind, run_store8, Machine.memset]
      cases Machine.store8 virtualAddr value machine with
      | none => rfl
      | some stored => exact ih (virtualAddr + 1) stored

theorem run_createPageTable (pdi : Word) (machine : Machine) :
    run (createPageTable pdi) machine = (Machine.createPageTable pdi machine).map fun after => ((), after) := by
  rw [createPageTable, Machine.createPageTable, run_bind, run_allocBlock, Option.bind_some]
  dsimp only
  rw [run_bind, run_store32, Option.bind_eq_bind]
  cases Machine.store32 _ _ machine.allocBlock.2 with
  | none => rfl
  | some stored =>
      rw [Option.map_some, Option.bind_some, Option.bind_some, run_bind, run_invplg, Option.bind_some]
      exact run_memset ..

theorem run_mapAddress (virtualAddr physicalAddr flags : Word) (machine : Machine) :
    run (mapAddress virtualAddr physicalAddr flags) machine = Machine.mapAddress virtualAddr physicalAddr flags machine := by
  have entered : ∀ opened : Machine, run (enterPage virtualAddr physicalAddr flags) opened = (do
      let ptEntry := entryAddress (getPageTableVirtualAddr (getPageDirIndex virtualAddr)) (getPageTableIndex virtualAddr)
      let pte ← Machine.load32 ptEntry opened
      if testFlag pte ptePresent then some (false, opened)
      else do
        let machine ← Machine.store32 ptEntry (setAddr pte physicalAddr) opened
        let pte ← Machine.load32 ptEntry machine
        let machine ← Machine.store32 ptEntry (setFlag pte (ptePresent ||| flags)) machine
        some (true, machine)) := by
    intro opened
    rw [enterPage]
    dsimp only
    rw [run_bind, run_load32, Option.bind_eq_bind]
    cases Machine.load32 _ opened with
    | none => rfl
    | some pte =>
        rw [Option.map_some, Option.bind_some, Option.bind_some]
        dsimp only
        split
        · rfl
        · rw [run_bind, run_store32, Option.bind_eq_bind]
          cases Machine.store32 _ _ opened with
          | none => rfl
          | some addressed =>
              rw [Option.map_some, Option.bind_some, Option.bind_some, run_bind, run_load32]
              cases Machine.load32 _ addressed with
              | none => rfl
              | some flagged =>
                  rw [Option.map_some, Option.bind_some, Option.bind_some, run_bind, run_store32]
                  cases Machine.store32 _ _ addressed <;> rfl
  rw [mapAddress, Machine.mapAddress]
  dsimp only
  rw [run_bind, run_load32, Option.bind_eq_bind]
  cases Machine.load32 _ machine with
  | none => rfl
  | some pde =>
      rw [Option.map_some, Option.bind_some, Option.bind_some]
      dsimp only
      split
      · exact entered machine
      · rw [run_bind, run_createPageTable]
        cases Machine.createPageTable _ machine with
        | none => rfl
        | some opened => exact entered opened

theorem run_unmapAddress (virtualAddr : Word) (machine : Machine) :
    run (unmapAddress virtualAddr) machine = (Machine.unmapAddress virtualAddr machine).map fun after => ((), after) := by
  rw [unmapAddress, Machine.unmapAddress]
  dsimp only
  rw [run_bind, run_load32, Option.bind_eq_bind]
  cases Machine.load32 _ machine with
  | none => rfl
  | some pde =>
      rw [Option.map_some, Option.bind_some, Option.bind_some]
      dsimp only
      split
      · rw [run_bind, run_load32]
        cases Machine.load32 _ machine with
        | none => rfl
        | some pte =>
            rw [Option.map_some, Option.bind_some, Option.bind_eq_bind, Option.bind_some]
            dsimp only
            split
            · rw [run_bind, run_store32]
              cases Machine.store32 _ _ machine <;> rfl
            · rfl
      · rfl

theorem run_allocatePage (pageVa : Word) (machine : Machine) :
    run (allocatePage pageVa) machine = Machine.allocatePage pageVa machine := by
  rw [allocatePage, Machine.allocatePage, run_bind, run_allocBlock, Option.bind_some, run_bind, run_mapAddress,
    Option.bind_eq_bind]
  cases Machine.mapAddress _ _ _ machine.allocBlock.2 with
  | none => rfl
  | some reply =>
      obtain ⟨mapped, entered⟩ := reply
      rw [Option.bind_some, Option.bind_some]
      cases mapped with
      | false => rfl
      | true =>
          change run (memset pageVa 0 pageTableSize >>= fun _ => pure machine.allocBlock.1) entered =
            (Machine.memset pageVa 0 pageTableSize entered).bind fun cleared => some (machine.allocBlock.1, cleared)
          rw [run_bind, run_memset]
          cases Machine.memset pageVa 0 pageTableSize entered <;> rfl

theorem run_fillTable (tableVa flags : Word) (left : Nat) (physicalAddr virtualAddr : Word) (machine : Machine) :
    run (fillTable tableVa flags left physicalAddr virtualAddr) machine =
      (Machine.fillTable tableVa flags left physicalAddr virtualAddr machine).map fun after => ((), after) := by
  induction left generalizing physicalAddr virtualAddr machine with
  | zero => rfl
  | succ left ih =>
      rw [fillTable, run_bind, run_store32, Machine.fillTable, Option.bind_eq_bind]
      cases Machine.store32 _ _ machine with
      | none => rfl
      | some stored => exact ih _ _ stored

theorem run_enterTables (directory kernel identity : Word) (machine : Machine) :
    run (enterTables directory kernel identity) machine =
      (Machine.enterTables directory kernel identity machine).map fun after => ((), after) := by
  rw [enterTables, Machine.enterTables, run_bind, run_fillTable, Option.bind_eq_bind]
  cases Machine.fillTable Machine.kernelMapVa _ _ _ _ machine with
  | none => rfl
  | some machine1 =>
      rw [Option.map_some, Option.bind_some, Option.bind_some, run_bind, run_fillTable]
      cases Machine.fillTable Machine.identityMapVa _ _ _ _ machine1 with
      | none => rfl
      | some machine2 =>
          rw [Option.map_some, Option.bind_some, Option.bind_some, run_bind, run_store32]
          cases Machine.store32 _ _ machine2 with
          | none => rfl
          | some machine3 =>
              rw [Option.map_some, Option.bind_some, Option.bind_some, run_bind, run_store32]
              cases Machine.store32 _ _ machine3 with
              | none => rfl
              | some machine4 => exact run_store32 ..

theorem run_switchCurrentPageDirectory (directory : Word) (machine : Machine) :
    run (switchCurrentPageDirectory directory) machine = some ((), Machine.switchCurrentPageDirectory directory machine) := by
  rw [switchCurrentPageDirectory, Machine.switchCurrentPageDirectory]
  split <;> rfl

theorem run_initializePaging (machine : Machine) :
    run initializePaging machine = (Machine.initializePaging machine).map fun after => ((), after) := by
  rw [initializePaging, Machine.initializePaging, run_bind, allocatePageDirectory, run_allocatePage,
    Machine.allocatePageDirectory, Option.bind_eq_bind]
  cases Machine.allocatePage Machine.directoryVa machine with
  | none => rfl
  | some first =>
      obtain ⟨directory, machine1⟩ := first
      rw [Option.bind_some, Option.bind_some]
      dsimp only
      split
      · rfl
      rw [run_bind, allocatePageTable, run_allocatePage, Machine.allocatePageTable]
      cases Machine.allocatePage Machine.kernelMapVa machine1 with
      | none => rfl
      | some second =>
          obtain ⟨kernel, machine2⟩ := second
          rw [Option.bind_some, Option.bind_some]
          dsimp only
          rw [run_bind, allocatePageTable, run_allocatePage, Machine.allocatePageTable]
          cases Machine.allocatePage Machine.identityMapVa machine2 with
          | none => rfl
          | some third =>
              obtain ⟨identity, machine3⟩ := third
              rw [Option.bind_some, Option.bind_some]
              dsimp only
              split
              · rfl
              · rw [run_bind, run_enterTables, Machine.installTables_eq]
                cases Machine.enterTables directory kernel identity machine3 with
                | none => rfl
                | some entered =>
                    rw [Option.map_some, Option.bind_some, run_bind, run_flushTlb, Option.bind_some,
                      run_switchCurrentPageDirectory]
                    rfl

end Tlb

end ScratchOs
