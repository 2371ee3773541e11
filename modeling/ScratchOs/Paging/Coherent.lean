import ScratchOs.Paging.Cached
import ScratchOs.Paging.Owners

namespace ScratchOs.Tlb

open Data

/-! Cached translations under the paging code.

A translation that is there stays, except that of the page `unmap_address` takes
away and invalidates. The one place where translations come and go unannounced
is a new table: it is entered before it is cleared, and until then its slot
shows whatever its frame held. -/

variable {machine machine' : Machine} {ahead : Set Word} {α : Type} {virtualAddr value address : Word}
  {pdi pti frame page : Word}

abbrev Agrees (ahead : Set Word) (code : Code α) (machine : Machine) : Prop := system.Agrees ahead code machine

def Kept (machine machine' : Machine) : Prop :=
  ∀ page frame, machine.frameOf page = some frame → machine'.frameOf page = some frame

theorem kept_of_same (same : ∀ page, machine'.frameOf page = machine.frameOf page) : Kept machine machine' :=
  fun page _ found => (same page).trans found

theorem align_of_samePage {left right : Word} (same : Machine.SamePage left right) :
    alignTo4kb left = alignTo4kb right := by
  rw [Machine.SamePage] at same
  apply BitVec.eq_of_toNat_eq
  rw [alignTo4kb_eq, alignTo4kb_eq, getAddr_toNat, getAddr_toNat, same]

/-! One operation and the rest. -/

theorem ensures_perform {op : Op} {answer : op.Answer} {next : op.Answer → Code α} {allowed allowed' : Word → Word → Prop}
    {after : α → Cpu → Prop} (runs : execute op machine = some (answer, machine'))
    (fetched : ∀ page frame, system.Wanted ahead (some op) page → machine.frameOf page = some frame → allowed page frame)
    (used : ∀ page frame, page ∈ pages op → allowed page frame → machine.frameOf page = some frame)
    (kept : ∀ page frame, drops op page = false → allowed page frame → allowed' page frame)
    (rest : system.Ensures ahead (Translated.Holds machine' allowed') (next answer) after) :
    system.Ensures ahead (Translated.Holds machine allowed) (perform op >>= next) after :=
  Translated.ensures_ask runs fetched used kept rest

theorem agrees_of_ensures {code : Code α} {result : α} {final : Machine} (ran : run code machine = some (result, final))
    (through : system.Ensures ahead (Translated.Holds machine (system.Current machine)) code
      fun value cached => value = result ∧ Translated.Holds final (system.Current final) cached) :
    Agrees ahead code machine := by
  refine Program.Ensures.consequence through (fun _ holds => holds) ?_
  rintro value cached ⟨rfl, rfl, allowed⟩
  exact ⟨ran, rfl, allowed⟩

theorem agrees_perform {op : Op} {answer : op.Answer} {next : op.Answer → Code α}
    (runs : execute op machine = some (answer, machine'))
    (kept : ∀ page frame, drops op page = false → machine.frameOf page = some frame →
      machine'.frameOf page = some frame)
    (rest : Agrees ahead (next answer) machine') : Agrees ahead (perform op >>= next) machine :=
  Translated.agrees_ask runs kept rest

theorem agrees_pure (result : α) : Agrees ahead (pure result) machine := Translated.agrees_done result

theorem agrees_load32 {next : Word → Code α} (loaded : Machine.load32 virtualAddr machine = some value)
    (rest : Agrees ahead (next value) machine) : Agrees ahead (load32 virtualAddr >>= next) machine := by
  have runs : execute (.load32 virtualAddr) machine = some (value, machine) := by
    rw [execute_load32, loaded, Option.map_some]
  exact agrees_perform runs (fun _ _ _ found => found) rest

theorem agrees_store32 {next : Unit → Code α} (stored : Machine.store32 virtualAddr value machine = some machine')
    (kept : Kept machine machine') (rest : Agrees ahead (next ()) machine') :
    Agrees ahead (store32 virtualAddr value >>= next) machine := by
  have runs : execute (.store32 virtualAddr value) machine = some ((), machine') := by
    rw [execute_store32, stored, Option.map_some]
  exact agrees_perform runs (fun page frame _ found => kept page frame found) rest

theorem agrees_store8 {byte : Byte} {next : Unit → Code α} (stored : Machine.store8 virtualAddr byte machine = some machine')
    (kept : Kept machine machine') (rest : Agrees ahead (next ()) machine') :
    Agrees ahead (store8 virtualAddr byte >>= next) machine := by
  have runs : execute (.store8 virtualAddr byte) machine = some ((), machine') := by
    rw [execute_store8, stored, Option.map_some]
  exact agrees_perform runs (fun page frame _ found => kept page frame found) rest

theorem agrees_allocBlock {next : Word → Code α} (rest : Agrees ahead (next machine.allocBlock.1) machine.allocBlock.2) :
    Agrees ahead (allocBlock >>= next) machine := by
  have runs : execute .allocBlock machine = some machine.allocBlock := rfl
  exact agrees_perform runs (fun _ _ _ found => found) rest

theorem agrees_freeBlock : Agrees ahead (freeBlock address) machine := by
  have runs : execute (.freeBlock address) machine = some ((), machine.freeBlock address) := rfl
  exact agrees_perform runs (fun _ _ _ found => found) (agrees_pure ())

theorem agrees_writeCr3 (directory : Word) : Agrees ahead (perform (.writeCr3 directory)) machine := by
  have runs : execute (.writeCr3 directory) machine = some ((), { machine with cr3 := directory }) := rfl
  exact agrees_perform runs (fun _ _ left => nomatch left) (agrees_pure ())

theorem agrees_flushTlb : Agrees ahead flushTlb machine := by
  have runs : execute .readCr3 machine = some (machine.cr3, machine) := rfl
  exact agrees_perform runs (fun _ _ _ found => found) (agrees_writeCr3 machine.cr3)

theorem agrees_switchCurrentPageDirectory (directory : Word) :
    Agrees ahead (switchCurrentPageDirectory directory) machine := by
  rw [switchCurrentPageDirectory]
  split
  · exact agrees_pure ()
  · exact agrees_writeCr3 directory

/-! Entries. -/

/-- An entry that was absent had no page: whatever it becomes, the pages that
were there stay where they are. -/
theorem setEntry_kept (apart : machine.tableFrame pdi ≠ machine.directory) (within : pti.toNat < 1024) (absent : testFlag (machine.entry pdi pti) ptePresent = false) :
    Kept machine (machine.setEntry pdi pti value) := by
  intro page frame found
  have elsewhere : machine.place page ≠ entryAddress (machine.tableFrame pdi) pti := by
    intro here
    have present := Machine.present_of_frameOf found
    have entry : machine.entry (getPageDirIndex page) (getPageTableIndex page) = machine.entry pdi pti :=
      congrArg machine.memory.read32 here
    rw [Machine.frameOf, Machine.walk_of_present present, entry, absent] at found
    cases found
  rw [Machine.frameOf, Machine.setEntry_walk_elsewhere apart within elsewhere, ← Machine.frameOf, found]

theorem agrees_enterPage {physicalAddr flags : Word} (opened : machine.SlotOpen (getPageDirIndex virtualAddr)) :
    Agrees ahead (enterPage virtualAddr physicalAddr flags) machine := by
  have within := Machine.getPageTableIndex_lt virtualAddr
  rw [enterPage]
  refine agrees_load32 (opened.load within) ?_
  split
  · exact agrees_pure false
  next clear =>
    have absent := Bool.eq_false_of_not_eq_true clear
    have stored := opened.setEntry within (setAddr (machine.entry (getPageDirIndex virtualAddr)
      (getPageTableIndex virtualAddr)) physicalAddr)
    have still : testFlag (setAddr (machine.entry (getPageDirIndex virtualAddr) (getPageTableIndex virtualAddr))
        physicalAddr) ptePresent = false := by
      rw [testFlag_present_eq] at absent ⊢
      rw [setAddr, BitVec.getLsbD_or, BitVec.getLsbD_and, BitVec.getLsbD_and, absent]
      simp
    have addressed : testFlag ((machine.setEntry (getPageDirIndex virtualAddr) (getPageTableIndex virtualAddr)
        (setAddr (machine.entry (getPageDirIndex virtualAddr) (getPageTableIndex virtualAddr)) physicalAddr)).entry
          (getPageDirIndex virtualAddr) (getPageTableIndex virtualAddr)) ptePresent = false := by
      rw [Machine.setEntry_entry_self opened.apart opened.inside within within, if_pos rfl]
      exact still
    refine agrees_store32 (opened.store within _) (setEntry_kept opened.apart within absent) ?_
    refine agrees_load32 (stored.load within) ?_
    refine agrees_store32 (stored.store within _) (setEntry_kept stored.apart within addressed) ?_
    exact agrees_pure true

/-! A new table. -/

/-- The translations of other slots. -/
def Outside (pdi : Word) (machine : Machine) (page frame : Word) : Prop :=
  getPageDirIndex page ≠ pdi ∧ machine.frameOf page = some frame

/-- No one but the slot's own pages goes through its table. -/
theorem frameOf_outside {memory' : ByteMemory} (self : machine.SelfMapped)
    (fresh : ∀ slot : Word, slot.toNat < 1024 → machine.Present slot → slot ≠ pdi → machine.tableFrame slot ≠ frame)
    (notWindow : pdi ≠ 1023) (aligned : frame.toNat % 4096 = 0)
    (same : Set.EqOn memory' machine.memory (frameSpan frame)ᶜ) (other : getPageDirIndex page ≠ pdi) :
    ({ machine with memory := memory' } : Machine).frameOf page = machine.frameOf page := by
  have apart : ∀ slot : Word, slot.toNat < 1024 → machine.Present slot → slot ≠ pdi →
      Set.EqOn memory' machine.memory (frameSpan (machine.tableFrame slot)) := by
    intro slot inside present different
    exact same.mono (Set.subset_compl_iff_disjoint_left.mpr
      (frames_disjoint aligned (machine.tableFrame_mod slot) (fresh slot inside present different).symm))
  have directory : Set.EqOn memory' machine.memory (frameSpan machine.directory) := by
    have window := apart 1023 (by decide) self.present notWindow.symm
    rwa [Machine.tableFrame, self.address] at window
  have entries := @Machine.directoryEntry_congr machine (getPageDirIndex page) memory' machine.pmm
    (Machine.getPageDirIndex_lt page) directory
  rw [Machine.frameOf, Machine.frameOf]
  congr 1
  refine Machine.walk_congr entries fun present => ?_
  change Machine.tableEntry _ (Machine.directoryEntry _ _) _ = _
  rw [entries]
  exact read_entry_congr (machine.tableFrame_mod _) (Machine.getPageTableIndex_lt page)
    (apart _ (Machine.getPageDirIndex_lt page) present other)

/-- Entering a table moves no page that is there. -/
theorem enterDirectoryEntry_kept (tables : machine.TablesSound) (inside : pdi.toNat < 1024)
    (absent : ¬ machine.Present pdi) :
    Kept machine { machine with memory := machine.memory.write32 (entryAddress machine.directory pdi) value } := by
  intro page frame found
  have present := Machine.present_of_frameOf found
  have slot := Machine.getPageDirIndex_lt page
  have different : getPageDirIndex page ≠ pdi := by
    rintro same
    exact absent (same ▸ present)
  have entries : ({ machine with memory := machine.memory.write32 (entryAddress machine.directory pdi) value } :
      Machine).directoryEntry (getPageDirIndex page) = machine.directoryEntry (getPageDirIndex page) := by
    change ByteMemory.read32 _ _ = _
    exact (read_entry_write machine.directory_mod inside slot).trans (if_neg different)
  rw [Machine.frameOf, Machine.walk_congr entries, ← Machine.frameOf, found]
  intro _
  change Machine.tableEntry _ (Machine.directoryEntry _ _) _ = _
  rw [entries]
  by_cases window : machine.tableFrame (getPageDirIndex page) = machine.directory
  · -- The page is one of the window, so it shows a table that is there.
    have last : getPageDirIndex page = 1023 :=
      tables.distinct _ 1023 slot (by decide) present tables.self.present (window.trans tables.self.address.symm)
    have index : getPageTableIndex page ≠ pdi := by
      rintro same
      refine absent ?_
      have shown : machine.entry (getPageDirIndex page) (getPageTableIndex page) = machine.directoryEntry pdi := by
        rw [Machine.entry, Machine.tableEntry, ← Machine.tableFrame, window, same]
        rfl
      rw [Machine.frameOf, Machine.walk_of_present present, shown] at found
      split at found
      · next set => exact set
      · cases found
    change ByteMemory.read32 _ (entryAddress (machine.tableFrame _) _) = machine.memory.read32
      (entryAddress (machine.tableFrame _) _)
    rw [window, read_entry_write machine.directory_mod inside (Machine.getPageTableIndex_lt page), if_neg index]
  · exact read_entry_congr (machine.tableFrame_mod _) (Machine.getPageTableIndex_lt page)
      ((write_entry_outside machine.directory_mod inside).mono (Set.subset_compl_iff_disjoint_left.mpr
        (frames_disjoint machine.directory_mod (machine.tableFrame_mod _) fun same => window same.symm)))

theorem getPageDirIndex_window (inside : pdi.toNat < 1024) {offset : Word} (within : offset.toNat < 4096) :
    getPageDirIndex (getPageTableVirtualAddr pdi + offset) = 1023 := by
  apply BitVec.eq_of_toNat_eq
  rw [getPageDirIndex_toNat]
  change _ = 1023
  unfold getPageTableVirtualAddr pageTableBase
  bv_omega

theorem getPageDirIndex_alignTo4kb (virtualAddr : Word) :
    getPageDirIndex (alignTo4kb virtualAddr) = getPageDirIndex virtualAddr :=
  (Machine.samePage_iff.mp (samePage_alignTo4kb virtualAddr)).1

/-- The slot while its table is being cleared: nothing of it is cached, and
whatever the table still holds is not looked at. -/
structure Opening (machine : Machine) (pdi frame : Word) : Prop where
  self : machine.SelfMapped
  inside : pdi.toNat < 1023
  aligned : frame.toNat % 4096 = 0
  fresh : ∀ slot : Word, slot.toNat < 1024 → machine.Present slot → slot ≠ pdi → machine.tableFrame slot ≠ frame
  stable : machine.PageStable (getPageTableVirtualAddr pdi) frame

theorem Opening.frameOf {memory' : ByteMemory} (opening : Opening machine pdi frame)
    (same : Set.EqOn memory' machine.memory (frameSpan frame)ᶜ) (other : getPageDirIndex page ≠ pdi) :
    ({ machine with memory := memory' } : Machine).frameOf page = machine.frameOf page := by
  refine frameOf_outside opening.self opening.fresh ?_ opening.aligned same other
  rintro rfl
  exact absurd opening.inside (by decide)

/-- A frame that is cleared from its start up to `offset`. -/
structure Clearing (memory memory' : ByteMemory) (frame : Word) (offset : Nat) : Prop where
  outside : Set.EqOn memory' memory (frameSpan frame)ᶜ
  inside : ∀ place ∈ frameSpan frame, memory' place = if place.toNat < frame.toNat + offset then 0 else memory place

theorem Clearing.start (memory : ByteMemory) (frame : Word) : Clearing memory memory frame 0 where
  outside _ _ := rfl
  inside place member := by
    rw [mem_span] at member
    rw [if_neg (by omega)]

theorem Clearing.next {memory memory' : ByteMemory} {offset : Word} (clearing : Clearing memory memory' frame offset.toNat)
    (aligned : frame.toNat % 4096 = 0) (room : offset.toNat < 4096) :
    Clearing memory (memory'.write8 (frame + offset) 0) frame (offset.toNat + 1) where
  outside := by
    refine ((memory'.write8_outside _ 0).mono (Set.compl_subset_compl.mpr ?_)).trans clearing.outside
    intro place
    rw [mem_span, mem_span]
    bv_omega
  inside place member := by
    by_cases here : place = frame + offset
    · rw [here, ByteMemory.write8_self, if_pos (by bv_omega)]
    · have apart : place.toNat ≠ frame.toNat + offset.toNat := fun same => here (by bv_omega)
      rw [ByteMemory.write8_of_ne here, clearing.inside place member]
      by_cases before : place.toNat < frame.toNat + offset.toNat
      · rw [if_pos before, if_pos (by omega)]
      · rw [if_neg before, if_neg (by omega)]

/-- Clearing the table. What is looked up meanwhile may be seen half cleared. -/
theorem Opening.memset (opening : Opening machine pdi frame) {allowed : Word → Word → Prop}
    (fetched : ∀ (memory' : ByteMemory) (offset : Nat), Clearing machine.memory memory' frame offset → ∀ page place,
      page ∈ ahead ∨ getPageDirIndex page = 1023 →
        ({ machine with memory := memory' } : Machine).frameOf page = some place → allowed page place)
    (used : ∀ page place, getPageDirIndex page = 1023 → allowed page place → machine.frameOf page = some place)
    {memory' : ByteMemory} {offset : Word} {count : Nat} (room : 0 < count → offset.toNat + count ≤ 4096)
    (clearing : Clearing machine.memory memory' frame offset.toNat) :
    system.Ensures ahead (Translated.Holds { machine with memory := memory' } allowed)
      (memset (getPageTableVirtualAddr pdi + offset) 0 count)
      fun _ => Translated.Holds { machine with memory := memory'.fill (frame + offset) 0 count } allowed := by
  induction count generalizing memory' offset with
  | zero =>
      rw [ByteMemory.fill]
      refine Program.Ensures.consequence (Program.ensures_done (Translated.stable_holds ?_)) (fun _ holds => holds)
        fun _ _ ended => ended.2
      rintro page place (early | ⟨_, impossible, _⟩) found
      · exact fetched memory' _ clearing page place (.inl early) found
      · cases impossible
  | succ count ih =>
      have here := room (Nat.succ_pos count)
      have translated := opening.stable memory' clearing.outside offset (by omega)
      have slot := @getPageDirIndex_window pdi (Nat.lt_succ_of_lt opening.inside) offset (by omega)
      have notHere : (1023 : Word) ≠ pdi := by
        rintro rfl
        exact absurd opening.inside (by decide)
      have runs : execute (.store8 (getPageTableVirtualAddr pdi + offset) 0) { machine with memory := memory' } =
          some ((), { machine with memory := memory'.write8 (frame + offset) 0 }) := by
        rw [execute_store8, Machine.store8, translated]
        rfl
      have window : ∀ page ∈ pages (.store8 (getPageTableVirtualAddr pdi + offset) 0), getPageDirIndex page = 1023 := by
        rintro page rfl
        rw [getPageDirIndex_alignTo4kb, slot]
      refine Translated.ensures_ask runs ?_ ?_ (fun _ _ _ holds => holds) ?_
      · rintro page place wanted found
        refine fetched memory' _ clearing page place ?_ found
        rcases wanted with early | ⟨op, asked, through⟩
        · exact .inl early
        · cases asked
          exact .inr (window page through)
      · rintro page place through holds
        have last := window page through
        exact (opening.frameOf clearing.outside (last ▸ notHere)).trans (used page place last holds)
      · have cleared := clearing.next opening.aligned (by omega)
        rw [show offset.toNat + 1 = (offset + 1).toNat by bv_omega] at cleared
        have rest := @ih (memory'.write8 (frame + offset) 0) (offset + 1) (fun more => by bv_omega) cleared
        rw [← BitVec.add_assoc, ← BitVec.add_assoc] at rest
        rw [ByteMemory.fill]
        exact rest

/-- The machine once a table has been entered for the slot, before it is cleared. -/
def entered (pdi frame : Word) (machine : Machine) : Machine :=
  { machine with
    memory := machine.memory.write32 (entryAddress machine.directory pdi) (setFlag frame (pdePresent ||| pdeReadWrite)) }

theorem opening_entered (tables : machine.TablesSound) (inside : pdi.toNat < 1023) (aligned : frame.toNat % 4096 = 0)
    (fresh : ∀ slot : Word, slot.toNat < 1024 → machine.Present slot → machine.tableFrame slot ≠ frame) :
    Opening (entered pdi frame machine) pdi frame := by
  have apart : frame ≠ machine.directory := by
    rw [← tables.self.address]
    exact (fresh 1023 (by decide) tables.self.present).symm
  have entries : ∀ slot : Word, slot.toNat < 1024 → (entered pdi frame machine).directoryEntry slot =
      if slot = pdi then setFlag frame (pdePresent ||| pdeReadWrite) else machine.directoryEntry slot :=
    fun slot slotInside => read_entry_write machine.directory_mod (by omega) slotInside
  have window : (1023 : Word) ≠ pdi := by
    rintro rfl
    exact absurd inside (by decide)
  have last := entries 1023 (by decide)
  rw [if_neg window] at last
  have mine := entries pdi (by omega)
  rw [if_pos rfl] at mine
  have self : (entered pdi frame machine).SelfMapped := by
    constructor
    · rw [Machine.Present, last]
      exact tables.self.present
    · rw [last]
      exact tables.self.address
  have address : getAddr ((entered pdi frame machine).directoryEntry pdi) = frame := by
    rw [mine, ← getAddr_of_aligned aligned, getAddr_setFlag (by decide)]
  have stable := @Machine.SelfMapped.stable_window _ pdi self (by omega)
    (by rw [Machine.Present, mine]; exact testFlag_setFlag_present ..) (by rw [address]; exact apart)
  rw [address] at stable
  refine ⟨self, inside, aligned, fun slot slotInside present different => ?_, stable⟩
  rw [Machine.Present, entries slot slotInside, if_neg different] at present
  rw [Machine.tableFrame, entries slot slotInside, if_neg different]
  exact fresh slot slotInside present

/-- A slot gets its table. From when it is entered until it is cleared, `allowed`
are the translations that may be cached. -/
theorem ensures_createPageTable (tables : machine.TablesSound) (inside : pdi.toNat < 1023)
    (absent : ¬ machine.Present pdi) (new : machine.NewTable pdi) {allowed : Word → Word → Prop}
    (fetched : ∀ (memory' : ByteMemory) (offset : Nat),
      Clearing (entered pdi machine.allocBlock.1 machine.allocBlock.2).memory memory' machine.allocBlock.1 offset →
      ∀ page place, page ∈ ahead ∨ getPageDirIndex page = 1023 →
        ({ entered pdi machine.allocBlock.1 machine.allocBlock.2 with memory := memory' } : Machine).frameOf page =
          some place → allowed page place)
    (used : ∀ page place, getPageDirIndex page = 1023 → allowed page place →
      (entered pdi machine.allocBlock.1 machine.allocBlock.2).frameOf page = some place)
    (outside : ∀ page place, Outside pdi (entered pdi machine.allocBlock.1 machine.allocBlock.2) page place →
      allowed page place) :
    system.Ensures ahead (Translated.Holds machine (system.Current machine)) (createPageTable pdi)
      fun _ => Translated.Holds (machine.allocBlock.2.enterTable pdi machine.allocBlock.1) allowed := by
  have aligned : machine.allocBlock.1.toNat % 4096 = 0 := machine.pmm.allocBlock_mod
  have opening := opening_entered tables.allocBlock inside aligned (new absent).1
  have kept := @enterDirectoryEntry_kept machine.allocBlock.2 (setFlag machine.allocBlock.1 (pdePresent ||| pdeReadWrite))
    pdi tables.allocBlock (by omega) absent
  have notHere : ∀ {page frame : Word}, machine.frameOf page = some frame → getPageDirIndex page ≠ pdi := by
    rintro page frame found rfl
    exact absent (Machine.present_of_frameOf found)
  have allocates : execute .allocBlock machine = some machine.allocBlock := rfl
  have stores : execute (.store32 (entryAddress pageDirBase pdi) (setFlag (setAddr 0 machine.allocBlock.1)
      (pdePresent ||| pdeReadWrite))) machine.allocBlock.2 =
        some ((), entered pdi machine.allocBlock.1 machine.allocBlock.2) := by
    rw [execute_store32, setAddr_zero, getAddr_of_aligned aligned,
      tables.allocBlock.self.store_directory (show pdi.toNat < 1024 by omega), Option.map_some]
    rfl
  have invalidates : execute (.invlpg (getPageTableVirtualAddr pdi)) (entered pdi machine.allocBlock.1
      machine.allocBlock.2) = some ((), entered pdi machine.allocBlock.1 machine.allocBlock.2) := rfl
  have clears := @Opening.memset _ ahead pdi machine.allocBlock.1 opening allowed fetched used
    (entered pdi machine.allocBlock.1 machine.allocBlock.2).memory 0#32 pageTableSize (fun _ => by decide)
    (Clearing.start _ _)
  rw [BitVec.add_zero, BitVec.add_zero] at clears
  rw [createPageTable]
  refine ensures_perform allocates (fun _ _ _ found => found) (fun _ _ _ found => found) (fun _ _ _ found => found) ?_
  refine ensures_perform stores (fun _ _ _ found => found) (fun _ _ _ found => found)
    (fun page frame _ found => outside page frame ⟨notHere found, kept page frame found⟩) ?_
  refine ensures_perform invalidates ?_ (fun _ _ none => none.elim) (fun _ _ _ holds => holds) clears
  rintro page frame (early | ⟨_, asked, through⟩) found
  · exact fetched _ _ (Clearing.start _ _) page frame (.inl early) found
  · cases asked
    exact through.elim

theorem agrees_createPageTable (tables : machine.TablesSound) (inside : pdi.toNat < 1023)
    (absent : ¬ machine.Present pdi) (new : machine.NewTable pdi)
    (elsewhere : ∀ page ∈ ahead, getPageDirIndex page ≠ pdi) : Agrees ahead (createPageTable pdi) machine := by
  obtain ⟨fresh, _⟩ := new absent
  have aligned : machine.allocBlock.1.toNat % 4096 = 0 := machine.pmm.allocBlock_mod
  have apart : machine.allocBlock.1 ≠ machine.directory := by
    rw [← tables.self.address]
    exact (fresh 1023 (by decide) tables.self.present).symm
  have created := Machine.createPageTable_eq tables.self inside aligned apart
  have opening := opening_entered tables.allocBlock inside aligned fresh
  have notWindow : (1023 : Word) ≠ pdi := by
    rintro rfl
    exact absurd inside (by decide)
  refine agrees_of_ensures ((run_createPageTable pdi machine).trans (by rw [created, Option.map_some])) ?_
  refine Program.Ensures.consequence (ensures_createPageTable tables inside absent new ?_
    (fun page place _ outside => outside.2) fun _ _ outside => outside) (fun _ holds => holds) ?_
  · intro memory' offset clearing page place wanted found
    have other : getPageDirIndex page ≠ pdi := wanted.elim (elsewhere page) fun last => last ▸ notWindow
    exact ⟨other, (opening.frameOf clearing.outside other).symm.trans found⟩
  · exact fun _ _ holds => ⟨rfl, holds.mono fun page frame outside =>
      (opening.frameOf (clearFrame_outside aligned) outside.1).trans outside.2⟩

theorem agrees_mapAddress {physicalAddr flags : Word} (tables : machine.TablesSound)
    (inside : (getPageDirIndex virtualAddr).toNat < 1023) (new : machine.NewTable (getPageDirIndex virtualAddr))
    (elsewhere : ¬ machine.Present (getPageDirIndex virtualAddr) →
      ∀ page ∈ ahead, getPageDirIndex page ≠ getPageDirIndex virtualAddr) :
    Agrees ahead (mapAddress virtualAddr physicalAddr flags) machine := by
  have ready := (tables.withTable inside new).1
  have opened := ready.withTable
  rw [mapAddress]
  refine agrees_load32 (tables.self.load_directory (show (getPageDirIndex virtualAddr).toNat < 1024 by omega)) ?_
  split
  · next present =>
      rw [Machine.withTable_of_present present] at opened
      exact agrees_enterPage opened
  · next absent =>
      rw [Machine.withTable_of_absent absent] at opened
      refine Translated.agrees_bind (agrees_createPageTable tables inside absent new (elsewhere absent)) ?_
      rintro ⟨⟩ middle ran
      have created := Machine.createPageTable_eq tables.self inside machine.pmm.allocBlock_mod (ready.absent absent)
      have result : run (createPageTable (getPageDirIndex virtualAddr)) machine = some ((), middle) := ran
      rw [run_createPageTable, created, Option.map_some] at result
      cases result
      exact agrees_enterPage opened

/-! `unmap_address`. -/

theorem setEntry_stays (tables : machine.TablesSound) (inside : (getPageDirIndex virtualAddr).toNat < 1023)
    (present : machine.Present (getPageDirIndex virtualAddr)) (found : machine.frameOf page = some frame) :
    alignTo4kb page = alignTo4kb virtualAddr ∨
      (machine.setEntry (getPageDirIndex virtualAddr) (getPageTableIndex virtualAddr) value).frameOf page = some frame := by
  have within := Machine.getPageTableIndex_lt virtualAddr
  have slot := Machine.getPageDirIndex_lt page
  by_cases same : Machine.SamePage page virtualAddr
  · exact .inl (align_of_samePage same)
  · have elsewhere : machine.place page ≠ entryAddress (machine.tableFrame (getPageDirIndex virtualAddr))
        (getPageTableIndex virtualAddr) := by
      intro here
      obtain ⟨tableSame, indexSame⟩ := Machine.entryAddress_inj (machine.tableFrame_mod _) (machine.tableFrame_mod _)
        (Machine.getPageTableIndex_lt page) within here
      exact same (Machine.samePage_iff.mpr ⟨tables.distinct _ _ slot (by omega) (Machine.present_of_frameOf found) present
        tableSame, indexSame⟩)
    rw [Machine.frameOf, Machine.setEntry_walk_elsewhere (tables.apart_directory inside present) within elsewhere,
      ← Machine.frameOf, found]
    exact .inr rfl

/-- Only the page's own translation outlives its entry, and `invlpg` drops it. -/
theorem agrees_unmapAddress (tables : machine.TablesSound) (inside : (getPageDirIndex virtualAddr).toNat < 1023) :
    Agrees ahead (unmapAddress virtualAddr) machine := by
  have within := Machine.getPageTableIndex_lt virtualAddr
  rw [unmapAddress]
  refine agrees_load32 (tables.self.load_directory (show (getPageDirIndex virtualAddr).toNat < 1024 by omega)) ?_
  split
  rotate_left
  · exact agrees_pure ()
  next present =>
    have apart := tables.apart_directory inside present
    have opened : machine.SlotOpen (getPageDirIndex virtualAddr) := ⟨tables.self, by omega, present, apart⟩
    refine agrees_load32 (opened.load within) ?_
    split
    rotate_left
    · exact agrees_pure ()
    next set =>
      have found : machine.frameOf virtualAddr = some (getAddr (machine.entry (getPageDirIndex virtualAddr)
          (getPageTableIndex virtualAddr))) := by
        rw [Machine.frameOf, Machine.walk_of_present present, if_pos set, Option.map_some]
      have result := Machine.unmapAddress_eq tables.self (tables.apart_directory inside)
      rw [found] at result
      generalize getAddr (machine.entry (getPageDirIndex virtualAddr) (getPageTableIndex virtualAddr)) = frame at *
      have stored := opened.store within 0
      have stays := fun page frame => @setEntry_stays machine virtualAddr 0 frame page tables inside present
      generalize machine.setEntry (getPageDirIndex virtualAddr) (getPageTableIndex virtualAddr) 0 = cleared at *
      have stores : execute (.store32 (entryAddress (getPageTableVirtualAddr (getPageDirIndex virtualAddr))
          (getPageTableIndex virtualAddr)) 0) machine = some ((), cleared) := by
        rw [execute_store32, stored, Option.map_some]
      have invalidates : execute (.invlpg virtualAddr) cleared = some ((), cleared) := rfl
      have ran : run (store32 (entryAddress (getPageTableVirtualAddr (getPageDirIndex virtualAddr))
          (getPageTableIndex virtualAddr)) 0 >>= fun _ => invplg virtualAddr >>= fun _ => freeBlock frame) machine =
            some ((), cleared.freeBlock frame) := by
        rw [run_bind, run_store32, stored, Option.map_some, Option.bind_some, run_bind, run_invplg, Option.bind_some,
          run_freeBlock]
      refine agrees_of_ensures ran ?_
      refine @ensures_perform _ _ _ _ _ _ _ _
        (fun page frame => alignTo4kb page = alignTo4kb virtualAddr ∨ cleared.frameOf page = some frame) _ stores
        (fun _ _ _ found => found) (fun _ _ _ found => found) (fun page frame _ was => stays page frame was) ?_
      refine @ensures_perform _ _ _ _ _ _ _ _ (system.Current cleared) _ invalidates (fun _ _ _ found => .inr found)
        (fun _ _ none => none.elim) ?_ ?_
      · intro page frame left found
        exact found.resolve_left (of_decide_eq_false left)
      · refine Program.Ensures.consequence agrees_freeBlock (fun _ holds => holds) ?_
        rintro ⟨⟩ ⟨state, cache⟩ ⟨freed, coherent⟩
        cases freed
        exact ⟨rfl, coherent⟩

/-! Pages the kernel works on. -/

section Pages

variable {pages : Set Word} (inv : machine.PagingInv pages) (member : virtualAddr ∈ pages)
  (pageAligned : virtualAddr.toNat % 4096 = 0) (found : machine.frameOf virtualAddr = some frame)

include inv member found in
theorem kept_of_write {memory' : ByteMemory} (same : Set.EqOn memory' machine.memory (frameSpan frame)ᶜ) :
    Kept machine { machine with memory := memory' } :=
  kept_of_same (inv.write member found same).2

include inv member pageAligned found

theorem agrees_memset {offset : Word} {byte : Byte} {count : Nat} (room : 0 < count → offset.toNat + count ≤ 4096) :
    Agrees ahead (memset (virtualAddr + offset) byte count) machine := by
  induction count generalizing machine offset with
  | zero => exact agrees_pure ()
  | succ count ih =>
      have here := room (Nat.succ_pos count)
      have aligned := Machine.frameOf_mod found
      have translated := inv.stable member pageAligned found machine.memory (fun _ _ => rfl) offset (by omega)
      have outside : Set.EqOn (machine.memory.write8 (frame + offset) byte) machine.memory (frameSpan frame)ᶜ := by
        refine (machine.memory.write8_outside _ byte).mono (Set.compl_subset_compl.mpr ?_)
        intro place
        rw [mem_span, mem_span]
        bv_omega
      have stored : Machine.store8 (virtualAddr + offset) byte machine =
          some { machine with memory := machine.memory.write8 (frame + offset) byte } := by
        rw [Machine.store8, translated, Option.map_some]
      obtain ⟨invAfter, frames⟩ := inv.write member found outside
      have rest := @ih _ invAfter ((frames virtualAddr).trans found) (offset + 1) (fun more => by bv_omega)
      rw [← BitVec.add_assoc] at rest
      rw [memset]
      exact agrees_store8 stored (kept_of_write inv member found outside) rest

theorem agrees_store_entry {next : Unit → Code α} (within : pti.toNat < 1024)
    (rest : Agrees ahead (next ())
      { machine with memory := machine.memory.write32 (entryAddress frame pti) value }) :
    Agrees ahead (store32 (entryAddress virtualAddr pti) value >>= next) machine := by
  have outside := @write_entry_outside machine.memory _ _ value (Machine.frameOf_mod found) within
  exact agrees_store32 ((inv.stable member pageAligned found).store_entry within value)
    (kept_of_write inv member found outside) rest

theorem agrees_last_entry (within : pti.toNat < 1024) :
    Agrees ahead (store32 (entryAddress virtualAddr pti) value) machine := by
  have rest : Agrees ahead (store32 (entryAddress virtualAddr pti) value >>= pure) machine :=
    agrees_store_entry inv member pageAligned found within (agrees_pure ())
  exact rest

theorem agrees_fillTable {flags physicalAddr firstAddr : Word} {left : Nat} :
    Agrees ahead (fillTable virtualAddr flags left physicalAddr firstAddr) machine := by
  induction left generalizing machine physicalAddr firstAddr with
  | zero => exact agrees_pure ()
  | succ left ih =>
      have within := Machine.getPageTableIndex_lt firstAddr
      obtain ⟨invAfter, frames⟩ := inv.write member found (@write_entry_outside machine.memory _ _
        (setFlag (setAddr 0 physicalAddr) flags) (Machine.frameOf_mod found) within)
      rw [fillTable]
      exact agrees_store_entry inv member pageAligned found within (ih invAfter ((frames virtualAddr).trans found))

end Pages

/-! `initialize_paging`. -/

theorem agrees_allocatePage {pages : Set Word} {pageVa : Word} (inv : machine.PagingInv pages)
    (inside : (getPageDirIndex pageVa).toNat < 1023) (aligned : pageVa.toNat % 4096 = 0)
    (enough : ¬ machine.allocBlock.2.Present (getPageDirIndex pageVa) → machine.allocBlock.2.FrameFree)
    (unmapped : machine.frameOf pageVa = none)
    (elsewhere : ¬ machine.Present (getPageDirIndex pageVa) → ∀ page ∈ ahead, getPageDirIndex page ≠ getPageDirIndex pageVa) :
    Agrees ahead (allocatePage pageVa) machine := by
  have frameAligned : machine.allocBlock.1.toNat % 4096 = 0 := machine.pmm.allocBlock_mod
  have keep : Machine.FlagsKeep machine.allocBlock.1 pteReadWrite := Machine.flagsKeep_of_lt frameAligned (by decide)
  have tables := inv.tables.allocBlock
  have new := tables.newTable enough
  have taken := inv.take inside enough keep
  have found := @Machine.mapped_frameOf_self machine.allocBlock.2 pageVa pageVa machine.allocBlock.1 pteReadWrite tables
    inside new frameAligned keep rfl
  have mapping := @Machine.mapAddress_of_unmapped machine.allocBlock.2 pageVa machine.allocBlock.1 pteReadWrite tables
    inside new (Option.map_eq_none_iff.mp unmapped)
  rw [allocatePage]
  refine agrees_allocBlock (Translated.agrees_bind (agrees_mapAddress tables inside new elsewhere) ?_)
  intro mapped middle ran
  have result : run (mapAddress pageVa machine.allocBlock.1 pteReadWrite) machine.allocBlock.2 = some (mapped, middle) := ran
  rw [run_mapAddress, mapping] at result
  cases result
  have cleared := @agrees_memset _ ahead pageVa _ _ taken (.inr (Machine.mem_pageOf_iff.mpr rfl)) aligned found 0#32 0
    pageTableSize (fun _ => by decide)
  rw [BitVec.add_zero] at cleared
  exact Translated.agrees_bind cleared fun _ _ _ => agrees_pure _

theorem agrees_enterTables {pages : Set Word} {directory kernel identity : Word}
    (work : machine.Workspace pages directory kernel identity) :
    Agrees ahead (enterTables directory kernel identity) machine := by
  obtain ⟨directoryListed, kernelListed, identityListed⟩ := work.listed
  have kernelAligned := Machine.frameOf_mod work.kernelPage
  have identityAligned := Machine.frameOf_mod work.identityPage
  rw [enterTables]
  refine Translated.agrees_bind (agrees_fillTable work.inv kernelListed (by decide) work.kernelPage) ?_
  rintro ⟨⟩ middle ran
  have filled := (run_fillTable ..).symm.trans ran
  rw [(work.inv.stable kernelListed (by decide) work.kernelPage).fillTable kernelAligned, Option.map_some] at filled
  have same := congrArg Prod.snd (Option.some.inj filled)
  dsimp only at same
  subst same
  obtain ⟨invKernel, framesKernel⟩ := work.inv.write kernelListed work.kernelPage
    (@Stage2.fillTable_outside machine.memory kernel (ptePresent ||| pteReadWrite) kernelLoadAddr kernelVirtualAddr
      pagesPerTable kernelAligned)
  have identityFound := (framesKernel _).trans work.identityPage
  have directoryFound := (framesKernel _).trans work.directoryPage
  generalize Stage2.fillTable kernel (ptePresent ||| pteReadWrite) pagesPerTable kernelLoadAddr kernelVirtualAddr
    machine.memory = kernelMemory at *
  refine Translated.agrees_bind (agrees_fillTable invKernel identityListed (by decide) identityFound) ?_
  rintro ⟨⟩ middle ranIdentity
  have filled := (run_fillTable ..).symm.trans ranIdentity
  rw [(invKernel.stable identityListed (by decide) identityFound).fillTable identityAligned, Option.map_some] at filled
  have same := congrArg Prod.snd (Option.some.inj filled)
  dsimp only at same
  subst same
  obtain ⟨invIdentity, framesIdentity⟩ := invKernel.write identityListed identityFound
    (@Stage2.fillTable_outside kernelMemory identity ptePresent 0 0 pagesPerTable identityAligned)
  have found := (framesIdentity _).trans directoryFound
  dsimp only at invIdentity found
  generalize Stage2.fillTable identity ptePresent pagesPerTable 0 0 kernelMemory = identityMemory at *
  -- The directory is not in use yet, so its entries are words like others.
  have directoryAligned := Machine.frameOf_mod work.directoryPage
  refine agrees_store_entry invIdentity directoryListed (by decide) found (by decide) ?_
  obtain ⟨invFirst, framesFirst⟩ := invIdentity.write directoryListed found
    (@write_entry_outside identityMemory directory (getPageDirIndex 0) (setFlag (setAddr 0 identity) pdePresent)
      directoryAligned (by decide))
  have foundFirst := (framesFirst _).trans found
  refine agrees_store_entry invFirst directoryListed (by decide) foundFirst (by decide) ?_
  obtain ⟨invSecond, framesSecond⟩ := invFirst.write directoryListed foundFirst
    (@write_entry_outside _ directory (getPageDirIndex kernelVirtualAddr)
      (setFlag (setAddr 0 kernel) (pdePresent ||| pdeReadWrite)) directoryAligned (by decide))
  rw [recursivelyMapPageDirectory]
  exact agrees_last_entry invSecond directoryListed (by decide) ((framesSecond _).trans foundFirst) (by decide)

/-- The three pages `initialize_paging` maps lie in slot 1, which is opened by
the first of them. -/
theorem agrees_initializePaging {memory : ByteMemory} {pmm : Pmm}
    (reserved : ∀ block < 1024, pmm.isBlockUsed block = true) (two : 2 ≤ pmm.getNumFreeBlocks)
    (elsewhere : ∀ page ∈ ahead, getPageDirIndex page ≠ 1) :
    Agrees ahead initializePaging (Stage2.machine memory pmm) := by
  obtain ⟨directory, kernel, identity, machine1, machine2, machine3, pages, run1, run2, run3, _, _, _, _, _, ready⟩ :=
    @Machine.allocatePages_spec memory pmm reserved two
  have inv0 : (Stage2.machine memory pmm).PagingInv ∅ := Machine.Stage2.inv reserved
  have absent0 : ¬ (Stage2.machine memory pmm).Present 1 := Machine.Stage2.absent
  have unmapped0 : ∀ pageVa : Word, getPageDirIndex pageVa = 1 → (Stage2.machine memory pmm).frameOf pageVa = none := by
    intro pageVa slot
    rw [Machine.frameOf, Machine.walk_of_absent (by rwa [slot])]
    rfl
  have enough : (Stage2.machine memory pmm).allocBlock.2.FrameFree := by
    refine Pmm.getNumFreeBlocks_pos.mp ?_
    change 0 < pmm.allocBlock.2.getNumFreeBlocks
    rw [Pmm.getNumFreeBlocks_allocBlock]
    omega
  obtain ⟨after1, result1, inv1, done1⟩ := @Machine.PagingInv.allocatePage _ Machine.directoryVa ∅ inv0 (by decide)
    (by decide) (fun _ => enough) (unmapped0 _ (by decide))
  cases run1.symm.trans result1
  have unmapped1 := (done1.others Machine.kernelMapVa (by decide) (by decide)).trans (unmapped0 _ (by decide))
  obtain ⟨after2, result2, inv2, done2⟩ := @Machine.PagingInv.allocatePage machine1 Machine.kernelMapVa _ inv1
    (by decide) (by decide) (absurd done1.present) unmapped1
  cases run2.symm.trans result2
  have unmapped2 := (done2.others Machine.identityMapVa (by decide) (by decide)).trans
    ((done1.others _ (by decide) (by decide)).trans (unmapped0 _ (by decide)))
  rw [initializePaging]
  refine Translated.agrees_bind (agrees_allocatePage inv0 (by decide) (by decide) (fun _ => enough)
    (unmapped0 _ (by decide)) fun _ => elsewhere) ?_
  intro first middle1 ran1
  cases ((run_allocatePage ..).symm.trans ran1).symm.trans run1
  split
  · exact agrees_pure ()
  refine Translated.agrees_bind (agrees_allocatePage inv1 (by decide) (by decide) (absurd done1.present) unmapped1
    (absurd done1.present)) ?_
  intro second middle2 ran2
  cases ((run_allocatePage ..).symm.trans ran2).symm.trans run2
  refine Translated.agrees_bind (agrees_allocatePage inv2 (by decide) (by decide) (absurd done2.present) unmapped2
    (absurd done2.present)) ?_
  intro third middle3 ran3
  cases ((run_allocatePage ..).symm.trans ran3).symm.trans run3
  split
  · exact agrees_pure ()
  next nonnull =>
    refine Translated.agrees_bind (agrees_enterTables (ready nonnull).1) fun _ entered _ => ?_
    exact Translated.agrees_bind agrees_flushTlb fun _ _ _ => agrees_switchCurrentPageDirectory _

end ScratchOs.Tlb
