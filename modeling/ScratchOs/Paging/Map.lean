import ScratchOs.Paging.Walk

namespace ScratchOs

open Data

/-! `map_address` and `unmap_address` of `kernel/paging.c`.

Both edit the tables through the recursive window: entry 1023 of the directory
names the directory itself, so table `pdi` appears at `0xFFC00000 + pdi * 0x1000`
and the directory at `0xFFFFF000`.
-/

def pageTableBase : Word := 0xFFC00000
def pageDirBase : Word := 0xFFFFF000

def getPageTableVirtualAddr (pdi : Word) : Word := pageTableBase + pdi * 0x1000

/-- `sizeof(PageTable)` and `sizeof(PageDirectory)`. -/
def pageTableSize : Nat := 4096

namespace Machine

/-- The part of `map_address` for a slot without a table. The frame is not
checked: `NULL` is entered like any other. -/
def createPageTable (pdi : Word) (machine : Machine) : Option Machine := do
  let newPageTable := machine.allocBlock.1
  let machine := machine.allocBlock.2
  let newPdEntry := setFlag (setAddr 0 newPageTable) (pdePresent ||| pdeReadWrite)
  let machine ← store32 (entryAddress pageDirBase pdi) newPdEntry machine
  memset (getPageTableVirtualAddr pdi) 0 pageTableSize machine

def mapAddress (virtualAddr physicalAddr flags : Word) (machine : Machine) : Option (Bool × Machine) := do
  let pdi := getPageDirIndex virtualAddr
  let pti := getPageTableIndex virtualAddr
  let pde ← load32 (entryAddress pageDirBase pdi) machine
  let machine ← if testFlag pde pdePresent then some machine else createPageTable pdi machine
  let ptEntry := entryAddress (getPageTableVirtualAddr pdi) pti
  let pte ← load32 ptEntry machine
  if testFlag pte ptePresent then some (false, machine)
  else do
    let machine ← store32 ptEntry (setAddr pte physicalAddr) machine
    let pte ← load32 ptEntry machine
    let machine ← store32 ptEntry (setFlag pte (ptePresent ||| flags)) machine
    some (true, machine)

def unmapAddress (virtualAddr : Word) (machine : Machine) : Option Machine := do
  let pdi := getPageDirIndex virtualAddr
  let pti := getPageTableIndex virtualAddr
  let pde ← load32 (entryAddress pageDirBase pdi) machine
  if testFlag pde pdePresent then do
    let ptEntry := entryAddress (getPageTableVirtualAddr pdi) pti
    let pte ← load32 ptEntry machine
    if testFlag pte ptePresent then do
      let frameAddr := getAddr pte
      let machine ← store32 ptEntry 0 machine
      some (machine.freeBlock frameAddr)
    else some machine
  else some machine

end Machine

/-! Frames and the entries in them. -/

abbrev frameSpan (frame : Word) : Set Word := span frame.toNat 4096

theorem entryAddress_toNat {table index : Word} (aligned : table.toNat % 4096 = 0)
    (inside : index.toNat < 1024) : (entryAddress table index).toNat = table.toNat + 4 * index.toNat := by
  unfold entryAddress
  bv_omega

theorem entry_subset_frame {table index : Word} (aligned : table.toNat % 4096 = 0)
    (inside : index.toNat < 1024) : span (entryAddress table index).toNat 4 ⊆ frameSpan table := by
  intro place
  rw [mem_span, mem_span, entryAddress_toNat aligned inside]
  omega

theorem frame_room {frame : Word} (aligned : frame.toNat % 4096 = 0) : frame.toNat + 4096 ≤ 2 ^ 32 := by
  omega

theorem entry_room {table index : Word} (aligned : table.toNat % 4096 = 0) (inside : index.toNat < 1024) :
    (entryAddress table index).toNat + 4 ≤ 2 ^ 32 := by
  rw [entryAddress_toNat aligned inside]
  omega

theorem frames_disjoint {left right : Word} (leftAligned : left.toNat % 4096 = 0)
    (rightAligned : right.toNat % 4096 = 0) (different : left ≠ right) :
    Disjoint (frameSpan left) (frameSpan right) := by
  have apart : left.toNat ≠ right.toNat := fun same => different (BitVec.eq_of_toNat_eq same)
  rw [Set.disjoint_left]
  intro place
  rw [mem_span, mem_span]
  omega

theorem entries_apart {table index other : Word} (aligned : table.toNat % 4096 = 0)
    (inside : index.toNat < 1024) (otherInside : other.toNat < 1024) (different : index ≠ other) :
    (entryAddress table index).toNat + 4 ≤ (entryAddress table other).toNat ∨
      (entryAddress table other).toNat + 4 ≤ (entryAddress table index).toNat := by
  have apart : index.toNat ≠ other.toNat := fun same => different (BitVec.eq_of_toNat_eq same)
  rw [entryAddress_toNat aligned inside, entryAddress_toNat aligned otherInside]
  omega

variable {memory memory' : ByteMemory} {table index other value : Word}

theorem read_entry_congr (aligned : table.toNat % 4096 = 0) (inside : index.toNat < 1024)
    (same : Set.EqOn memory' memory (frameSpan table)) :
    memory'.read32 (entryAddress table index) = memory.read32 (entryAddress table index) :=
  ByteMemory.read32_congr (same.mono (entry_subset_frame aligned inside)) (entry_room aligned inside)

theorem read_entry_write (aligned : table.toNat % 4096 = 0) (inside : index.toNat < 1024)
    (otherInside : other.toNat < 1024) :
    (memory.write32 (entryAddress table index) value).read32 (entryAddress table other) =
      if other = index then value else memory.read32 (entryAddress table other) := by
  split
  · rename_i same
    rw [same, ByteMemory.read32_write32]
  · rename_i different
    have outside := memory.write32_outside value (entry_room aligned inside)
    exact ByteMemory.read32_of_apart _ outside (entry_room aligned otherInside)
      (entries_apart aligned otherInside inside different)

theorem write_entry_outside (aligned : table.toNat % 4096 = 0) (inside : index.toNat < 1024) :
    Set.EqOn (memory.write32 (entryAddress table index) value) memory (frameSpan table)ᶜ :=
  (memory.write32_outside value (entry_room aligned inside)).mono
    (Set.compl_subset_compl.mpr (entry_subset_frame aligned inside))

def clearFrame (memory : ByteMemory) (frame : Word) : ByteMemory := memory.fill frame 0 4096

theorem clearFrame_outside (aligned : table.toNat % 4096 = 0) :
    Set.EqOn (clearFrame memory table) memory (frameSpan table)ᶜ :=
  ByteMemory.fill_outside (frame_room aligned)

theorem clearFrame_apart {frame : Word} (aligned : table.toNat % 4096 = 0) (frameAligned : frame.toNat % 4096 = 0)
    (apart : table ≠ frame) : Set.EqOn (clearFrame memory table) memory (frameSpan frame) :=
  (clearFrame_outside aligned).mono
    (Set.subset_compl_iff_disjoint_left.mpr (frames_disjoint aligned frameAligned apart))

theorem read_entry_clearFrame (aligned : table.toNat % 4096 = 0) (inside : index.toNat < 1024) :
    (clearFrame memory table).read32 (entryAddress table index) = 0 := by
  have zero : Set.EqOn (clearFrame memory table) (fun _ => 0) (frameSpan table) :=
    fun place within => ByteMemory.fill_inside (frame_room aligned) within
  rw [ByteMemory.read32_congr (zero.mono (entry_subset_frame aligned inside)) (entry_room aligned inside)]
  exact (by decide : joinBytes 0 0 0 0 = 0)

namespace Machine

variable {machine : Machine} {pdi pti : Word}

abbrev Present (machine : Machine) (pdi : Word) : Prop :=
  testFlag (machine.directoryEntry pdi) pdePresent = true

theorem directory_mod (machine : Machine) : machine.directory.toNat % 4096 = 0 := getAddr_mod _

/-- Entry 1023 of the directory names the directory. -/
structure SelfMapped (machine : Machine) : Prop where
  present : machine.Present 1023
  address : getAddr (machine.directoryEntry 1023) = machine.directory

/-- Through the recursive window the table of a slot is seen as a page. -/
theorem SelfMapped.translate_window (self : machine.SelfMapped) (inside : pdi.toNat < 1024)
    (present : machine.Present pdi) {offset : Word} (within : offset.toNat < 4096) :
    machine.translate (getPageTableVirtualAddr pdi + offset) =
      some (getAddr (machine.directoryEntry pdi) + offset) := by
  have place : (getPageTableVirtualAddr pdi + offset).toNat = 0xFFC00000 + 4096 * pdi.toNat + offset.toNat := by
    unfold getPageTableVirtualAddr pageTableBase
    bv_omega
  have dirIndex : getPageDirIndex (getPageTableVirtualAddr pdi + offset) = 1023 := by
    apply BitVec.eq_of_toNat_eq
    rw [getPageDirIndex_toNat, place]
    change _ = 1023
    omega
  have tableIndex : getPageTableIndex (getPageTableVirtualAddr pdi + offset) = pdi := by
    apply BitVec.eq_of_toNat_eq
    rw [getPageTableIndex_toNat, place]
    omega
  have low : (getPageTableVirtualAddr pdi + offset) &&& 0xFFF = offset := by
    apply BitVec.eq_of_toNat_eq
    rw [offset_toNat, place]
    omega
  have entry : machine.tableEntry (machine.directoryEntry 1023) pdi = machine.directoryEntry pdi := by
    rw [tableEntry, self.address]
    rfl
  simp only [translate, walk, dirIndex, tableIndex, low, self.present, entry, if_true]
  rw [if_pos (show testFlag (machine.directoryEntry pdi) ptePresent = true from present), Option.map_some]

/-- The four bytes of an entry, seen through the window. -/
theorem SelfMapped.entry_lanes (self : machine.SelfMapped) (inside : pdi.toNat < 1024)
    (present : machine.Present pdi) (within : pti.toNat < 1024) (lane : Nat) (small : lane < 4) :
    machine.translate (entryAddress (getPageTableVirtualAddr pdi) pti + BitVec.ofNat 32 lane) =
      some (entryAddress (getAddr (machine.directoryEntry pdi)) pti + BitVec.ofNat 32 lane) := by
  have window := self.translate_window inside present
    (show (pti * 4 + BitVec.ofNat 32 lane).toNat < 4096 by bv_omega)
  rw [← BitVec.add_assoc, ← BitVec.add_assoc] at window
  exact window

theorem SelfMapped.load_entry (self : machine.SelfMapped) (inside : pdi.toNat < 1024)
    (present : machine.Present pdi) (within : pti.toNat < 1024) :
    load32 (entryAddress (getPageTableVirtualAddr pdi) pti) machine =
      some (machine.tableEntry (machine.directoryEntry pdi) pti) :=
  load32_of_translate (self.entry_lanes inside present within)

theorem SelfMapped.store_entry (self : machine.SelfMapped) (inside : pdi.toNat < 1024)
    (present : machine.Present pdi) (within : pti.toNat < 1024) (value : Word) :
    store32 (entryAddress (getPageTableVirtualAddr pdi) pti) value machine =
      some { machine with
        memory := machine.memory.write32 (entryAddress (getAddr (machine.directoryEntry pdi)) pti) value } :=
  store32_of_translate (self.entry_lanes inside present within)

theorem SelfMapped.load_directory (self : machine.SelfMapped) (within : pdi.toNat < 1024) :
    load32 (entryAddress pageDirBase pdi) machine = some (machine.directoryEntry pdi) := by
  have loaded := self.load_entry (show (1023 : Word).toNat < 1024 by decide) self.present within
  rw [tableEntry, self.address] at loaded
  exact loaded

theorem SelfMapped.store_directory (self : machine.SelfMapped) (within : pdi.toNat < 1024) (value : Word) :
    store32 (entryAddress pageDirBase pdi) value machine =
      some { machine with memory := machine.memory.write32 (entryAddress machine.directory pdi) value } := by
  have stored := self.store_entry (show (1023 : Word).toNat < 1024 by decide) self.present within value
  rw [self.address] at stored
  exact stored

/-- Writes outside the directory's frame leave all directory entries alone. -/
theorem directoryEntry_congr {memory' : ByteMemory} {pmm' : Pmm} (inside : pdi.toNat < 1024)
    (same : Set.EqOn memory' machine.memory (frameSpan machine.directory)) :
    ({ machine with memory := memory', pmm := pmm' } : Machine).directoryEntry pdi =
      machine.directoryEntry pdi :=
  read_entry_congr machine.directory_mod inside same

theorem SelfMapped.congr (self : machine.SelfMapped) {memory' : ByteMemory} {pmm' : Pmm}
    (same : Set.EqOn memory' machine.memory (frameSpan machine.directory)) :
    ({ machine with memory := memory', pmm := pmm' } : Machine).SelfMapped where
  present := by
    rw [Present, directoryEntry_congr (by decide) same]
    exact self.present
  address := by
    rw [directoryEntry_congr (by decide) same]
    exact self.address

/-- A page and its frame, where writing to the frame does not move the page. -/
def PageStable (machine : Machine) (virtualAddr frame : Word) : Prop :=
  ∀ memory' : ByteMemory, Set.EqOn memory' machine.memory (frameSpan frame)ᶜ →
    ∀ offset : Word, offset.toNat < 4096 →
      ({ machine with memory := memory' } : Machine).translate (virtualAddr + offset) = some (frame + offset)

variable {virtualAddr frame : Word}

theorem PageStable.congr (stable : machine.PageStable virtualAddr frame)
    (same : Set.EqOn memory' machine.memory (frameSpan frame)ᶜ) :
    ({ machine with memory := memory' } : Machine).PageStable virtualAddr frame :=
  fun _ again => stable _ (again.trans same)

theorem PageStable.memset (stable : machine.PageStable virtualAddr frame) (aligned : frame.toNat % 4096 = 0)
    {offset : Word} {count : Nat} (room : offset.toNat + count ≤ 4096) (value : Byte) :
    Machine.memset (virtualAddr + offset) value count machine =
      some { machine with memory := machine.memory.fill (frame + offset) value count } := by
  induction count generalizing machine offset with
  | zero => rw [Machine.memset, ByteMemory.fill]
  | succ count ih =>
      have translated := stable machine.memory (fun _ _ => rfl) offset (by omega)
      have same : Set.EqOn (machine.memory.write8 (frame + offset) value) machine.memory (frameSpan frame)ᶜ := by
        refine (machine.memory.write8_outside _ value).mono (Set.compl_subset_compl.mpr ?_)
        intro place
        rw [mem_span, mem_span]
        bv_omega
      rw [Machine.memset, store8, translated, Option.map_some, Option.bind_eq_bind, Option.bind_some, ByteMemory.fill]
      cases count with
      | zero => rw [Machine.memset, ByteMemory.fill]
      | succ count =>
          have rest := @ih { machine with memory := _ } (stable.congr same) (offset + 1) (by bv_omega)
          rw [← BitVec.add_assoc, ← BitVec.add_assoc] at rest
          exact rest

theorem PageStable.clear (stable : machine.PageStable virtualAddr frame) (aligned : frame.toNat % 4096 = 0) :
    Machine.memset virtualAddr 0 pageTableSize machine =
      some { machine with memory := clearFrame machine.memory frame } := by
  have cleared := stable.memset aligned (show (0#32).toNat + pageTableSize ≤ 4096 by decide) 0
  rw [BitVec.add_zero, BitVec.add_zero] at cleared
  exact cleared

theorem PageStable.store_entry (stable : machine.PageStable virtualAddr frame) (within : pti.toNat < 1024)
    (value : Word) :
    store32 (entryAddress virtualAddr pti) value machine =
      some { machine with memory := machine.memory.write32 (entryAddress frame pti) value } := by
  refine store32_of_translate fun lane small => ?_
  have translated := stable machine.memory (fun _ _ => rfl) (pti * 4 + BitVec.ofNat 32 lane) (by bv_omega)
  rw [← BitVec.add_assoc, ← BitVec.add_assoc] at translated
  exact translated

/-- The window page of a table is stable, unless it shows the directory itself. -/
theorem SelfMapped.stable_window (self : machine.SelfMapped) (inside : pdi.toNat < 1024)
    (present : machine.Present pdi) (apart : getAddr (machine.directoryEntry pdi) ≠ machine.directory) :
    machine.PageStable (getPageTableVirtualAddr pdi) (getAddr (machine.directoryEntry pdi)) := by
  intro memory' kept offset within
  have same : Set.EqOn memory' machine.memory (frameSpan machine.directory) :=
    kept.mono (Set.subset_compl_iff_disjoint_left.mpr
      (frames_disjoint (getAddr_mod _) machine.directory_mod apart))
  have entry : ({ machine with memory := memory' } : Machine).directoryEntry pdi = machine.directoryEntry pdi :=
    directoryEntry_congr inside same
  have translated := (self.congr same).translate_window inside (by rwa [Present, entry]) within
  rw [entry] at translated
  exact translated

def tableFrame (machine : Machine) (pdi : Word) : Word := getAddr (machine.directoryEntry pdi)

theorem tableFrame_mod (machine : Machine) (pdi : Word) : (machine.tableFrame pdi).toNat % 4096 = 0 :=
  getAddr_mod _

def setEntry (pdi pti value : Word) (machine : Machine) : Machine :=
  { machine with memory := machine.memory.write32 (entryAddress (machine.tableFrame pdi) pti) value }

/-- Enter a cleared table at `frame` for slot `pdi`. -/
def enterTable (pdi frame : Word) (machine : Machine) : Machine :=
  { machine with
    memory := clearFrame (machine.memory.write32 (entryAddress machine.directory pdi)
      (setFlag frame (pdePresent ||| pdeReadWrite))) frame }

theorem enterTable_cr3 (machine : Machine) (pdi frame : Word) :
    (machine.enterTable pdi frame).cr3 = machine.cr3 := rfl

theorem enterTable_directory (machine : Machine) (pdi frame : Word) :
    (machine.enterTable pdi frame).directory = machine.directory := by
  rw [directory, enterTable_cr3, directory]

theorem enterTable_directoryEntry {frame other : Word} (inside : pdi.toNat < 1024) (otherInside : other.toNat < 1024)
    (aligned : frame.toNat % 4096 = 0) (apart : frame ≠ machine.directory) :
    (machine.enterTable pdi frame).directoryEntry other =
      if other = pdi then setFlag frame (pdePresent ||| pdeReadWrite) else machine.directoryEntry other := by
  have read := read_entry_congr machine.directory_mod otherInside
    (@clearFrame_apart (machine.memory.write32 (entryAddress machine.directory pdi)
      (setFlag frame (pdePresent ||| pdeReadWrite))) _ _ aligned machine.directory_mod apart)
  rw [read_entry_write machine.directory_mod inside otherInside] at read
  rw [directoryEntry, enterTable_directory]
  exact read

theorem createPageTable_eq (self : machine.SelfMapped) (inside : pdi.toNat < 1023)
    (aligned : machine.allocBlock.1.toNat % 4096 = 0) (apart : machine.allocBlock.1 ≠ machine.directory) :
    createPageTable pdi machine = some (machine.allocBlock.2.enterTable pdi machine.allocBlock.1) := by
  obtain ⟨frame, pmm, taken⟩ : ∃ frame pmm, machine.allocBlock = (frame, { machine with pmm := pmm }) :=
    ⟨_, _, rfl⟩
  rw [taken] at aligned apart
  dsimp only at aligned apart
  have selfTaken : ({ machine with pmm := pmm } : Machine).SelfMapped := self.congr (fun _ _ => rfl)
  have stored := selfTaken.store_directory (show pdi.toNat < 1024 by omega)
    (setFlag frame (pdePresent ||| pdeReadWrite))
  generalize written : machine.memory.write32 (entryAddress machine.directory pdi)
    (setFlag frame (pdePresent ||| pdeReadWrite)) = memory'
  have entries : ∀ other : Word, other.toNat < 1024 →
      ({ machine with memory := memory', pmm := pmm } : Machine).directoryEntry other =
        if other = pdi then setFlag frame (pdePresent ||| pdeReadWrite) else machine.directoryEntry other := by
    intro other otherInside
    rw [← written]
    exact read_entry_write machine.directory_mod (by omega) otherInside
  have different : (1023 : Word) ≠ pdi := by
    rintro rfl
    simp at inside
  have mine := entries pdi (by omega)
  rw [if_pos rfl] at mine
  have recursive := entries 1023 (by decide)
  rw [if_neg different] at recursive
  have selfAfter : ({ machine with memory := memory', pmm := pmm } : Machine).SelfMapped := by
    constructor
    · rw [Present, recursive]
      exact self.present
    · rw [recursive]
      exact self.address
  have address : getAddr (({ machine with memory := memory', pmm := pmm } : Machine).directoryEntry pdi) = frame := by
    rw [mine, ← getAddr_of_aligned aligned, getAddr_setFlag (by decide)]
  have stable := @SelfMapped.stable_window _ pdi selfAfter (by omega)
    (by rw [Present, mine]; exact testFlag_setFlag_present ..) (by rw [address]; exact apart)
  rw [address] at stable
  rw [createPageTable, taken]
  simp only [setAddr_zero, getAddr_of_aligned aligned, Option.bind_eq_bind]
  rw [stored, Option.bind_some, enterTable]
  simp only [directory] at written ⊢
  rw [written, stable.clear aligned]

end Machine

end ScratchOs
