import ScratchOs.Paging.Interleaved

namespace ScratchOs.Tlb

open Data

/-! `map_address` on a processor that looks up pages nobody has asked for.

A new table is entered and only then cleared. A processor that looks at the slot
in between finds what the frame held before, and no `invlpg` of the source takes
that back. -/

variable {machine : Machine} {memory memory' : ByteMemory} {virtualAddr physicalAddr flags : Word}
  {pdi pti frame page place : Word} {offset : Nat}

/-- What the frame of the next table still holds. -/
def leftover (machine : Machine) (pti : Word) : Word :=
  machine.memory.read32 (entryAddress machine.allocBlock.1 pti)

/-- Through the uncleared table nothing is seen but, at most, the page to be
mapped, and that where it is going to be. -/
def Harmless (machine : Machine) (virtualAddr physicalAddr flags : Word) : Prop :=
  ∀ pti : Word, pti.toNat < 1024 → testFlag (leftover machine pti) ptePresent = true →
    pti = getPageTableIndex virtualAddr ∧
      getAddr (leftover machine pti) = getAddr (Machine.mappedEntry 0 physicalAddr flags)

/-! A table that is being cleared. -/

/-- The present bit is in the first byte. -/
theorem testFlag_joinBytes_zero (byte1 byte2 byte3 : Byte) : testFlag (joinBytes 0 byte1 byte2 byte3) ptePresent = false := by
  rw [testFlag_present_eq, joinBytes, BitVec.getLsbD_append, if_pos (by decide)]
  rfl

/-- An entry is present only as long as none of it has been cleared. -/
theorem Clearing.entry (clearing : Clearing memory memory' frame offset) (aligned : frame.toNat % 4096 = 0)
    (within : pti.toNat < 1024) (set : testFlag (memory'.read32 (entryAddress frame pti)) ptePresent = true) :
    memory'.read32 (entryAddress frame pti) = memory.read32 (entryAddress frame pti) := by
  have start := entryAddress_toNat aligned within
  have inFrame := entry_subset_frame aligned within
  by_cases before : (entryAddress frame pti).toNat < frame.toNat + offset
  · have first : memory' (entryAddress frame pti) = 0 := by
      rw [clearing.inside _ (inFrame (by rw [mem_span]; omega)), if_pos before]
    rw [ByteMemory.read32, first, testFlag_joinBytes_zero] at set
    cases set
  · refine ByteMemory.read32_congr (fun place member => ?_) (entry_room aligned within)
    rw [clearing.inside place (inFrame member)]
    rw [mem_span] at member
    exact if_neg (by omega)

theorem frameOf_slot (opening : Opening machine pdi frame) (shown : getAddr (machine.directoryEntry pdi) = frame)
    (apart : frame ≠ machine.directory) (clearing : Clearing machine.memory memory' frame offset)
    (here : getPageDirIndex page = pdi) (found : ({ machine with memory := memory' } : Machine).frameOf page = some place) :
    testFlag (machine.memory.read32 (entryAddress frame (getPageTableIndex page))) ptePresent = true ∧
      place = getAddr (machine.memory.read32 (entryAddress frame (getPageTableIndex page))) := by
  have inside := opening.inside
  have directory : Set.EqOn memory' machine.memory (frameSpan machine.directory) :=
    clearing.outside.mono (Set.subset_compl_iff_disjoint_left.mpr
      (frames_disjoint opening.aligned machine.directory_mod apart))
  have entries := @Machine.directoryEntry_congr machine pdi memory' machine.pmm (by omega) directory
  have present := Machine.present_of_frameOf found
  have entry : ({ machine with memory := memory' } : Machine).entry (getPageDirIndex page) (getPageTableIndex page) =
      memory'.read32 (entryAddress frame (getPageTableIndex page)) := by
    rw [here, Machine.entry, entries, Machine.tableEntry, shown]
  rw [Machine.frameOf, Machine.walk_of_present present, entry] at found
  split at found
  · next set =>
      have same := clearing.entry opening.aligned (Machine.getPageTableIndex_lt page) set
      rw [same] at set found
      exact ⟨set, (Option.some.inj found).symm⟩
  · cases found

/-! Nothing harmful to be seen. -/

/-- What the tables say, or what they will say of the page to be mapped. -/
def Expected (machine : Machine) (virtualAddr physicalAddr flags page place : Word) : Prop :=
  machine.frameOf page = some place ∨
    Machine.SamePage page virtualAddr ∧ place = getAddr (Machine.mappedEntry 0 physicalAddr flags)

theorem expected_window (inside : (getPageDirIndex virtualAddr).toNat < 1023) (last : getPageDirIndex page = 1023)
    (expected : Expected machine virtualAddr physicalAddr flags page place) : machine.frameOf page = some place := by
  rcases expected with found | ⟨same, _⟩
  · exact found
  · rw [← (Machine.samePage_iff.mp same).1, last] at inside
    exact absurd inside (by decide)

theorem entry_pages (inside : pdi.toNat < 1024) (within : pti.toNat < 1024)
    (member : page ∈ pages (.load32 (entryAddress (getPageTableVirtualAddr pdi) pti))) : getPageDirIndex page = 1023 := by
  obtain ⟨lane, small, rfl⟩ := member
  have window := @getPageDirIndex_window pdi inside (pti * 4 + BitVec.ofNat 32 lane) (by bv_omega)
  rw [getPageDirIndex_alignTo4kb, entryAddress, BitVec.add_assoc, window]

theorem ensures_enterPage {ahead : Set Word} (opened : machine.SlotOpen (getPageDirIndex virtualAddr))
    (inside : (getPageDirIndex virtualAddr).toNat < 1023)
    (zero : machine.entry (getPageDirIndex virtualAddr) (getPageTableIndex virtualAddr) = 0) :
    system.Ensures ahead (Translated.Holds machine (Expected machine virtualAddr physicalAddr flags))
      (enterPage virtualAddr physicalAddr flags)
      fun value cached => value = true ∧
        Translated.Holds
          (machine.setEntry (getPageDirIndex virtualAddr) (getPageTableIndex virtualAddr)
            (Machine.mappedEntry 0 physicalAddr flags))
          (system.Current (machine.setEntry (getPageDirIndex virtualAddr) (getPageTableIndex virtualAddr)
            (Machine.mappedEntry 0 physicalAddr flags))) cached := by
  have within := Machine.getPageTableIndex_lt virtualAddr
  have absent : testFlag (machine.entry (getPageDirIndex virtualAddr) (getPageTableIndex virtualAddr)) ptePresent = false := by
    rw [zero, testFlag_zero]
  have clear : testFlag (setAddr 0 physicalAddr) ptePresent = false := by
    rw [testFlag_present_eq, setAddr, BitVec.getLsbD_or, BitVec.getLsbD_and, BitVec.getLsbD_and]
    simp
  have keptFirst := @setEntry_kept machine (setAddr 0 physicalAddr) _ _ opened.apart within absent
  have openedFirst := opened.setEntry within (setAddr 0 physicalAddr)
  have backFirst : ∀ page place, (machine.setEntry (getPageDirIndex virtualAddr) (getPageTableIndex virtualAddr)
      (setAddr 0 physicalAddr)).frameOf page = some place → machine.frameOf page = some place := by
    intro page place found
    rcases Machine.setEntry_frameOf opened.apart within found with ⟨_, set, _⟩ | ⟨_, same⟩
    · rw [clear] at set
      cases set
    · exact same
  have addressed := @Machine.setEntry_entry_self machine _ _ _ (setAddr 0 physicalAddr) opened.apart opened.inside within within
  rw [if_pos rfl] at addressed
  have keptLast := @setEntry_kept _ (Machine.mappedEntry 0 physicalAddr flags) _ _ openedFirst.apart within
    (by rw [addressed]; exact clear)
  have window := fun page place (through : page ∈ pages (.load32 (entryAddress (getPageTableVirtualAddr
      (getPageDirIndex virtualAddr)) (getPageTableIndex virtualAddr)))) =>
    @expected_window machine virtualAddr physicalAddr flags page place inside (entry_pages opened.inside within through)
  have loads : execute (.load32 (entryAddress (getPageTableVirtualAddr (getPageDirIndex virtualAddr))
      (getPageTableIndex virtualAddr))) machine = some (0, machine) := by
    rw [execute_load32, opened.load within, zero, Option.map_some]
  have stored := opened.store within (setAddr 0 physicalAddr)
  have there := openedFirst.present
  have mapped := @Machine.setEntry_walk_here _ _ _ (Machine.mappedEntry 0 physicalAddr flags) virtualAddr openedFirst.apart
    within there rfl
  rw [← @Machine.setEntry_setEntry machine _ _ (Machine.mappedEntry 0 physicalAddr flags) opened.apart opened.inside within
    (setAddr 0 physicalAddr)]
  generalize machine.setEntry (getPageDirIndex virtualAddr) (getPageTableIndex virtualAddr) (setAddr 0 physicalAddr) =
    middle at *
  have stores : execute (.store32 (entryAddress (getPageTableVirtualAddr (getPageDirIndex virtualAddr))
      (getPageTableIndex virtualAddr)) (setAddr 0 physicalAddr)) machine = some ((), middle) := by
    rw [execute_store32, stored, Option.map_some]
  have reloads : execute (.load32 (entryAddress (getPageTableVirtualAddr (getPageDirIndex virtualAddr))
      (getPageTableIndex virtualAddr))) middle = some (setAddr 0 physicalAddr, middle) := by
    rw [execute_load32, openedFirst.load within, addressed, Option.map_some]
  have storesLast : execute (.store32 (entryAddress (getPageTableVirtualAddr (getPageDirIndex virtualAddr))
      (getPageTableIndex virtualAddr)) (setFlag (setAddr 0 physicalAddr) (ptePresent ||| flags))) middle =
        some ((), middle.setEntry (getPageDirIndex virtualAddr) (getPageTableIndex virtualAddr)
          (Machine.mappedEntry 0 physicalAddr flags)) := by
    rw [execute_store32, openedFirst.store within, Option.map_some]
    rfl
  rw [if_pos (Machine.testFlag_mappedEntry ..)] at mapped
  have early : ∀ page place, middle.frameOf page = some place → Expected machine virtualAddr physicalAddr flags page place :=
    fun page place found => .inl (backFirst page place found)
  have sees : ∀ page place, page ∈ pages (.load32 (entryAddress (getPageTableVirtualAddr (getPageDirIndex virtualAddr))
      (getPageTableIndex virtualAddr))) → Expected machine virtualAddr physicalAddr flags page place →
        middle.frameOf page = some place :=
    fun page place through expected => keptFirst page place (window page place through expected)
  have arrives : ∀ page place, Expected machine virtualAddr physicalAddr flags page place →
      (middle.setEntry (getPageDirIndex virtualAddr) (getPageTableIndex virtualAddr)
        (Machine.mappedEntry 0 physicalAddr flags)).frameOf page = some place := by
    rintro page place (found | ⟨same, rfl⟩)
    · exact keptLast page place (keptFirst page place found)
    · rw [Machine.frameOf, Machine.walk_samePage same, mapped, Option.map_some]
  rw [enterPage]
  refine ensures_perform loads (fun _ _ _ found => .inl found) window (fun _ _ _ expected => expected) ?_
  rw [if_neg (by rw [testFlag_zero]; decide)]
  refine ensures_perform stores (fun _ _ _ found => .inl found) window (fun _ _ _ expected => expected) ?_
  refine ensures_perform reloads (fun page place _ found => early page place found) sees (fun _ _ _ expected => expected) ?_
  refine ensures_perform storesLast (fun page place _ found => early page place found) sees
    (fun page place _ expected => arrives page place expected) ?_
  exact Program.ensures_done (Translated.stable_holds fun _ _ _ found => found)

theorem entered_directoryEntry (inside : pdi.toNat < 1024) :
    (entered pdi frame machine).directoryEntry pdi = setFlag frame (pdePresent ||| pdeReadWrite) :=
  (read_entry_write machine.directory_mod inside inside).trans (if_pos rfl)

theorem entered_tableFrame (inside : pdi.toNat < 1024) (aligned : frame.toNat % 4096 = 0) :
    (entered pdi frame machine).tableFrame pdi = frame := by
  rw [Machine.tableFrame, entered_directoryEntry inside]
  conv_lhs => rw [← getAddr_of_aligned aligned]
  rw [getAddr_setFlag (by decide), getAddr_of_aligned aligned]

section Opening

variable (tables : machine.TablesSound) (inside : (getPageDirIndex virtualAddr).toNat < 1023)
  (absent : ¬ machine.Present (getPageDirIndex virtualAddr)) (new : machine.NewTable (getPageDirIndex virtualAddr))

include tables absent new

theorem new_ne_directory : machine.allocBlock.1 ≠ machine.directory := by
  rw [← tables.self.address]
  exact ((new absent).1 1023 (by decide) tables.self.present).symm

include inside

theorem opening_new : Opening (entered (getPageDirIndex virtualAddr) machine.allocBlock.1 machine.allocBlock.2)
    (getPageDirIndex virtualAddr) machine.allocBlock.1 :=
  opening_entered tables.allocBlock inside machine.pmm.allocBlock_mod (new absent).1

theorem entered_leftover (within : pti.toNat < 1024) :
    (entered (getPageDirIndex virtualAddr) machine.allocBlock.1 machine.allocBlock.2).memory.read32
      (entryAddress machine.allocBlock.1 pti) = leftover machine pti := by
  refine read_entry_congr machine.pmm.allocBlock_mod within ?_
  exact (write_entry_outside machine.directory_mod (by omega)).mono (Set.subset_compl_iff_disjoint_left.mpr
    (frames_disjoint machine.directory_mod machine.pmm.allocBlock_mod (new_ne_directory tables absent new).symm))

/-- The slot's pages as they are seen until the table is cleared. -/
theorem frameOf_clearing (here : getPageDirIndex page = getPageDirIndex virtualAddr)
    (clearing : Clearing (entered (getPageDirIndex virtualAddr) machine.allocBlock.1 machine.allocBlock.2).memory memory'
      machine.allocBlock.1 offset)
    (found : ({ entered (getPageDirIndex virtualAddr) machine.allocBlock.1 machine.allocBlock.2 with memory := memory' } :
      Machine).frameOf page = some place) :
    testFlag (leftover machine (getPageTableIndex page)) ptePresent = true ∧
      place = getAddr (leftover machine (getPageTableIndex page)) := by
  have shown := frameOf_slot (opening_new tables inside absent new) (entered_tableFrame (by omega) machine.pmm.allocBlock_mod)
    (new_ne_directory tables absent new) clearing here found
  rwa [entered_leftover tables inside absent new (Machine.getPageTableIndex_lt page)] at shown

theorem entered_frameOf (here : getPageDirIndex page = getPageDirIndex virtualAddr)
    (set : testFlag (leftover machine (getPageTableIndex page)) ptePresent = true) :
    (entered (getPageDirIndex virtualAddr) machine.allocBlock.1 machine.allocBlock.2).frameOf page =
      some (getAddr (leftover machine (getPageTableIndex page))) := by
  have present : (entered (getPageDirIndex virtualAddr) machine.allocBlock.1 machine.allocBlock.2).Present
      (getPageDirIndex page) := by
    rw [Machine.Present, here, entered_directoryEntry (by omega)]
    exact testFlag_setFlag_present ..
  have entry : (entered (getPageDirIndex virtualAddr) machine.allocBlock.1 machine.allocBlock.2).entry
      (getPageDirIndex page) (getPageTableIndex page) = leftover machine (getPageTableIndex page) := by
    have aligned : machine.allocBlock.1.toNat % 4096 = 0 := machine.pmm.allocBlock_mod
    have table := @entered_tableFrame machine.allocBlock.2 (getPageDirIndex virtualAddr) machine.allocBlock.1 (by omega) aligned
    rw [here, Machine.entry, Machine.tableEntry, ← Machine.tableFrame, table,
      entered_leftover tables inside absent new (Machine.getPageTableIndex_lt page)]
  rw [Machine.frameOf, Machine.walk_of_present present, entry, if_pos set, Option.map_some]

theorem withTable_frameOf (other : getPageDirIndex page ≠ getPageDirIndex virtualAddr) :
    (machine.withTable (getPageDirIndex virtualAddr)).frameOf page =
      (entered (getPageDirIndex virtualAddr) machine.allocBlock.1 machine.allocBlock.2).frameOf page := by
  rw [Machine.withTable_of_absent absent]
  exact (opening_new tables inside absent new).frameOf (clearFrame_outside machine.pmm.allocBlock_mod) other

/-- If nothing harmful can be seen, looking ahead does no harm. -/
theorem agrees_of_harmless (harmless : Harmless machine virtualAddr physicalAddr flags) :
    Agrees Set.univ (mapAddress virtualAddr physicalAddr flags) machine := by
  have opening := opening_new tables inside absent new
  have ready := (tables.withTable inside new).1
  have window : (1023 : Word) ≠ getPageDirIndex virtualAddr := by
    intro same
    rw [← same] at inside
    exact absurd inside (by decide)
  have zero : (machine.withTable (getPageDirIndex virtualAddr)).entry (getPageDirIndex virtualAddr)
      (getPageTableIndex virtualAddr) = 0 := by
    rw [Machine.withTable_of_absent absent]
    exact Machine.enterTable_entry_self (by omega) (Machine.getPageTableIndex_lt virtualAddr)
      machine.pmm.allocBlock_mod (new_ne_directory tables absent new)
  have creates := @ensures_createPageTable machine Set.univ (getPageDirIndex virtualAddr) tables inside absent new
    (Expected (machine.withTable (getPageDirIndex virtualAddr)) virtualAddr physicalAddr flags) ?_ ?_ ?_
  rotate_left
  · intro memory' offset clearing page place _ found
    by_cases here : getPageDirIndex page = getPageDirIndex virtualAddr
    · obtain ⟨set, same⟩ := frameOf_clearing tables inside absent new here clearing found
      obtain ⟨index, target⟩ := harmless _ (Machine.getPageTableIndex_lt page) set
      exact .inr ⟨Machine.samePage_iff.mpr ⟨here, index⟩, same.trans target⟩
    · refine .inl ?_
      rw [withTable_frameOf tables inside absent new here, ← opening.frameOf clearing.outside here, found]
  · intro page place last expected
    rw [← withTable_frameOf tables inside absent new (last ▸ window)]
    exact expected_window inside last expected
  · rintro page place ⟨other, found⟩
    exact .inl ((withTable_frameOf tables inside absent new other).trans found)
  have unmapped : machine.walk virtualAddr = none := Machine.walk_of_absent absent
  have ran := (run_mapAddress virtualAddr physicalAddr flags machine).trans
    (Machine.mapAddress_of_unmapped tables inside new unmapped)
  have loaded := tables.self.load_directory (show (getPageDirIndex virtualAddr).toNat < 1024 by omega)
  rw [mapAddress] at ran ⊢
  rw [run_bind, run_load32, loaded, Option.map_some, Option.bind_some, if_neg absent] at ran
  refine agrees_load32 loaded ?_
  rw [if_neg absent]
  refine agrees_of_ensures ran ?_
  rw [← Machine.withTable_of_absent absent] at creates
  exact Program.ensures_bind creates fun _ => ensures_enterPage ready.withTable inside zero

end Opening

/-! Something harmful to be seen. -/

def pageAt (pdi pti : Word) : Word := pdi * 0x400000 + pti * 0x1000

theorem getPageDirIndex_pageAt (inside : pdi.toNat < 1024) (within : pti.toNat < 1024) :
    getPageDirIndex (pageAt pdi pti) = pdi := by
  apply BitVec.eq_of_toNat_eq
  rw [getPageDirIndex_toNat, pageAt]
  bv_omega

theorem getPageTableIndex_pageAt (pdi : Word) (within : pti.toNat < 1024) :
    getPageTableIndex (pageAt pdi pti) = pti := by
  apply BitVec.eq_of_toNat_eq
  rw [getPageTableIndex_toNat, pageAt]
  bv_omega

abbrev Avoids {α : Type} (page : Word) (code : Code α) : Prop := system.Avoids page code

theorem avoids_perform {op : Op} (notUsed : page ∉ pages op) (notDropped : drops op page = false) :
    Avoids page (perform op) := ⟨notUsed, notDropped, fun _ => trivial⟩

theorem avoids_memset (inside : pdi.toNat < 1024) (other : getPageDirIndex page ≠ 1023) {offset : Word} {count : Nat}
    (room : 0 < count → offset.toNat + count ≤ 4096) : Avoids page (memset (getPageTableVirtualAddr pdi + offset) 0 count) := by
  induction count generalizing offset with
  | zero => exact trivial
  | succ count ih =>
      have here := room (Nat.succ_pos count)
      have rest := @ih (offset + 1) (fun more => by bv_omega)
      rw [← BitVec.add_assoc] at rest
      rw [memset]
      refine Translated.Avoids.bind (avoids_perform ?_ rfl) fun _ => rest
      rintro rfl
      rw [getPageDirIndex_alignTo4kb, getPageDirIndex_window inside (by omega)] at other
      exact other rfl

/-- The only page that is invalidated is one of the window. -/
theorem avoids_clearTable (inside : pdi.toNat < 1024) (other : getPageDirIndex page ≠ 1023) :
    Avoids page (invplg (getPageTableVirtualAddr pdi) >>= fun _ => memset (getPageTableVirtualAddr pdi) 0 pageTableSize) := by
  have cleared := @avoids_memset pdi page inside other 0#32 pageTableSize fun _ => by decide
  have window := @getPageDirIndex_window pdi inside 0#32 (by decide)
  rw [BitVec.add_zero] at cleared window
  refine Translated.Avoids.bind (avoids_perform (fun none => none.elim) (decide_eq_false fun same => other ?_)) fun _ => cleared
  rw [← getPageDirIndex_alignTo4kb page, same, getPageDirIndex_alignTo4kb, window]

theorem avoids_enterPage (other : getPageDirIndex page ≠ 1023) : Avoids page (enterPage virtualAddr physicalAddr flags) := by
  have notUsed : page ∉ pages (.load32 (entryAddress (getPageTableVirtualAddr (getPageDirIndex virtualAddr))
      (getPageTableIndex virtualAddr))) := fun through =>
    other (entry_pages (Machine.getPageDirIndex_lt virtualAddr) (Machine.getPageTableIndex_lt virtualAddr) through)
  rw [enterPage]
  refine Translated.Avoids.bind (avoids_perform notUsed rfl) fun pte => ?_
  split
  · exact trivial
  · refine Translated.Avoids.bind (avoids_perform notUsed rfl) fun _ => ?_
    refine Translated.Avoids.bind (avoids_perform notUsed rfl) fun _ => ?_
    exact Translated.Avoids.bind (avoids_perform notUsed rfl) fun _ => trivial

/-- One operation with nothing cached. -/
theorem reaches_perform {α : Type} {ahead : Set Word} {op : Op} {answer : op.Answer} {next : op.Answer → Code α}
    {machine' : Machine} (runs : execute op machine = some (answer, machine')) :
    Reaches ahead (perform op >>= next, ⟨machine, fun _ => none⟩) (next answer, ⟨machine', fun _ => none⟩) := by
  refine .single (.operation ?_)
  have empty : (fun page => if system.drops op page then none else (none : Option Word)) = fun _ => none := by
    funext page
    exact ite_self none
  have walks : system.lookup ⟨machine, fun _ => none⟩ = system.walk machine := by
    funext page
    exact Option.none_or ..
  rw [Translated.cachedExecute, walks]
  refine (congrArg (Option.map _) runs).trans ?_
  rw [Option.map_some, empty]

/-- Whatever is harmful is not where the tables say in the end. -/
theorem mapped_moved (tables : machine.TablesSound) (inside : (getPageDirIndex virtualAddr).toNat < 1023)
    (absent : ¬ machine.Present (getPageDirIndex virtualAddr)) (new : machine.NewTable (getPageDirIndex virtualAddr))
    (here : getPageDirIndex page = getPageDirIndex virtualAddr)
    (harmful : ¬ (getPageTableIndex page = getPageTableIndex virtualAddr ∧
      place = getAddr (Machine.mappedEntry 0 physicalAddr flags))) :
    (machine.mapped virtualAddr physicalAddr flags).frameOf page ≠ some place := by
  obtain ⟨ready, tablesAfter, _⟩ := tables.withTable inside new
  by_cases same : getPageTableIndex page = getPageTableIndex virtualAddr
  · have walked := tablesAfter.walk_setEntry_self inside ready.withTable.present (Machine.mappedEntry 0 physicalAddr flags)
    rw [if_pos (Machine.testFlag_mappedEntry ..)] at walked
    intro found
    rw [Machine.frameOf, Machine.walk_samePage (Machine.samePage_iff.mpr ⟨here, same⟩), Machine.mapped, walked,
      Option.map_some] at found
    exact harmful ⟨same, (Option.some.inj found).symm⟩
  · have different : ¬ Machine.SamePage page virtualAddr := fun pages => same (Machine.samePage_iff.mp pages).2
    rw [Machine.mapped_frameOf_other tables inside new (here ▸ inside) different, Machine.frameOf,
      Machine.walk_of_absent (here ▸ absent), Option.map_none]
    exact (Option.some_ne_none place).symm

/-- A page is looked up before the table is cleared, and its translation stays. -/
theorem stale_of_harmful (tables : machine.TablesSound) (inside : (getPageDirIndex virtualAddr).toNat < 1023)
    (absent : ¬ machine.Present (getPageDirIndex virtualAddr)) (new : machine.NewTable (getPageDirIndex virtualAddr))
    (within : pti.toNat < 1024) (set : testFlag (leftover machine pti) ptePresent = true)
    (harmful : ¬ (pti = getPageTableIndex virtualAddr ∧
      getAddr (leftover machine pti) = getAddr (Machine.mappedEntry 0 physicalAddr flags))) :
    ∃ after, Reaches Set.univ (mapAddress virtualAddr physicalAddr flags, ⟨machine, fun _ => none⟩) (.done true, after) ∧
      ¬ system.Coherent after := by
  have dir := @getPageDirIndex_pageAt (getPageDirIndex virtualAddr) pti (by omega) within
  have table := @getPageTableIndex_pageAt pti (getPageDirIndex virtualAddr) within
  have seen := @entered_frameOf machine virtualAddr (pageAt (getPageDirIndex virtualAddr) pti) tables inside absent new dir
  rw [table] at seen
  have walked := seen set
  have other : getPageDirIndex (pageAt (getPageDirIndex virtualAddr) pti) ≠ 1023 := by
    intro last
    rw [dir] at last
    rw [last] at inside
    exact absurd inside (by decide)
  have moved := @mapped_moved machine virtualAddr physicalAddr flags _ (getAddr (leftover machine pti)) tables inside absent
    new dir (by rwa [table])
  have aligned : machine.allocBlock.1.toNat % 4096 = 0 := machine.pmm.allocBlock_mod
  have loaded := tables.self.load_directory (show (getPageDirIndex virtualAddr).toNat < 1024 by omega)
  have stored := tables.allocBlock.self.store_directory (show (getPageDirIndex virtualAddr).toNat < 1024 by omega)
    (setFlag (setAddr 0 machine.allocBlock.1) (pdePresent ||| pdeReadWrite))
  have same : ({ machine.allocBlock.2 with memory := machine.allocBlock.2.memory.write32 (entryAddress
      machine.allocBlock.2.directory (getPageDirIndex virtualAddr)) (setFlag (setAddr 0 machine.allocBlock.1)
        (pdePresent ||| pdeReadWrite)) } : Machine) =
      entered (getPageDirIndex virtualAddr) machine.allocBlock.1 machine.allocBlock.2 := by
    rw [setAddr_zero, getAddr_of_aligned aligned]
    rfl
  rw [same] at stored
  have loads : execute (.load32 (entryAddress pageDirBase (getPageDirIndex virtualAddr))) machine =
      some (machine.directoryEntry (getPageDirIndex virtualAddr), machine) := by
    rw [execute_load32, loaded, Option.map_some]
  have stores : execute (.store32 (entryAddress pageDirBase (getPageDirIndex virtualAddr)) (setFlag (setAddr 0
      machine.allocBlock.1) (pdePresent ||| pdeReadWrite))) machine.allocBlock.2 =
        some ((), entered (getPageDirIndex virtualAddr) machine.allocBlock.1 machine.allocBlock.2) := by
    rw [execute_store32, stored, Option.map_some]
  have allocates : execute .allocBlock machine = some machine.allocBlock := rfl
  have ran := (run_mapAddress virtualAddr physicalAddr flags machine).trans
    (Machine.mapAddress_of_unmapped tables inside new (Machine.walk_of_absent absent))
  rw [mapAddress] at ran ⊢
  rw [run_bind, run_load32, loaded, Option.map_some, Option.bind_some, if_neg absent, createPageTable, Program.bind_assoc,
    run_bind, run_allocBlock, Option.bind_some, Program.bind_assoc, run_bind, run_store32, stored, Option.map_some,
    Option.bind_some] at ran
  refine ⟨⟨machine.mapped virtualAddr physicalAddr flags, Function.update (fun _ => none)
    (pageAt (getPageDirIndex virtualAddr) pti) (some (getAddr (leftover machine pti)))⟩, ?_, ?_⟩
  · refine (reaches_perform loads).trans ?_
    rw [if_neg absent, createPageTable, Program.bind_assoc]
    refine (reaches_perform allocates).trans ?_
    dsimp only
    rw [Program.bind_assoc]
    refine (reaches_perform stores).trans ?_
    refine .head (.environment (.fetch (.inl trivial) walked)) ?_
    refine Translated.Avoids.reaches ?_ (fun _ different => Function.update_of_ne different ..) ran
    exact Translated.Avoids.bind (avoids_clearTable (by omega) other) fun _ => avoids_enterPage other
  · intro coherent
    refine moved (coherent.allowed _ _ ?_)
    dsimp only
    rw [Function.update_self]

/-- With a coherent TLB, and whatever the processor looks up meanwhile, no access
of `map_address` faults, it does what it does without a TLB and leaves the TLB coherent. -/
def Unharmed (machine : Machine) (virtualAddr physicalAddr flags : Word) : Prop :=
  ∀ cpu, cpu.state = machine → system.Coherent cpu →
    NeverFaults Set.univ (mapAddress virtualAddr physicalAddr flags) cpu ∧
    ∀ result after, Reaches Set.univ (mapAddress virtualAddr physicalAddr flags, cpu) (.done result, after) →
      Machine.mapAddress virtualAddr physicalAddr flags machine = some (result, after.state) ∧ system.Coherent after

/-- That is so exactly if no new table is needed, or nothing is left in its
frame that is not mapped in the end. -/
theorem mapAddress_unharmed_iff (machine : Machine) (virtualAddr physicalAddr flags : Word) (tables : machine.TablesSound)
    (inside : (getPageDirIndex virtualAddr).toNat < 1023)
    (enough : ¬ machine.Present (getPageDirIndex virtualAddr) → machine.FrameFree) :
    Unharmed machine virtualAddr physicalAddr flags ↔
      machine.Present (getPageDirIndex virtualAddr) ∨ Harmless machine virtualAddr physicalAddr flags := by
  have new := tables.newTable enough
  constructor
  · intro unharmed
    by_contra neither
    obtain ⟨absent, harmful⟩ := not_or.mp neither
    rw [Harmless, not_forall] at harmful
    obtain ⟨pti, harmful⟩ := harmful
    obtain ⟨within, harmful⟩ := Classical.not_imp.mp harmful
    obtain ⟨set, harmful⟩ := Classical.not_imp.mp harmful
    obtain ⟨after, reached, stale⟩ := stale_of_harmful tables inside absent new within set harmful
    refine stale ((unharmed _ rfl ⟨rfl, fun page place found => ?_⟩).2 _ _ reached).2
    cases found
  · rintro either cpu rfl coherent
    have agrees : Agrees Set.univ (mapAddress virtualAddr physicalAddr flags) cpu.state := by
      by_cases present : cpu.state.Present (getPageDirIndex virtualAddr)
      · exact agrees_mapAddress tables inside new (absurd present)
      · exact agrees_of_harmless tables inside present new (either.resolve_left present)
    refine ⟨neverFaults_of_agrees agrees coherent, fun result after reached => ?_⟩
    obtain ⟨ran, coherentAfter⟩ := agrees.result coherent reached
    exact ⟨(run_mapAddress ..).symm.trans ran, coherentAfter⟩

/-- `Machine.bareMachine`, but its next frame has been in use: its first word has
the present bit. -/
def usedMachine : Machine := { Machine.bareMachine with memory := Machine.bareMachine.memory.write8 0x2000 1 }

theorem usedMachine_kept : Machine.bareMachine.TablesKept usedMachine.memory := by
  refine @Machine.tablesKept_of_clear _ 0x2000 _ (by decide) ?_ ?_
  · refine (ByteMemory.write8_outside _ _ _).mono (Set.compl_subset_compl.mpr ?_)
    intro place
    rw [mem_span, mem_span]
    bv_omega
  · intro slot inside present
    rw [(Machine.bareMachine_present inside).mp present, Machine.tableFrame, Machine.bareMachine_directoryEntry (by decide)]
    decide

theorem usedMachine_tables : usedMachine.TablesSound := usedMachine_kept.tables Machine.bareMachine_tables

theorem leftover_bareMachine (within : pti.toNat < 1024) : leftover Machine.bareMachine pti = 0 := by
  have next : Machine.bareMachine.allocBlock.1 = 0x2000 := by decide
  have apart : Set.EqOn Machine.bareMachine.memory (fun _ => 0) (frameSpan 0x2000) :=
    (@write_entry_outside (fun _ => 0) 0x1000 1023 0x1003 (by decide) (by decide)).mono
      (Set.subset_compl_iff_disjoint_left.mpr (frames_disjoint (by decide) (by decide) (by decide)))
  rw [leftover, next, read_entry_congr (by decide) within apart]
  exact (by decide : joinBytes 0 0 0 0 = 0)

theorem mapAddress_unharmed_iff_used : Unharmed Machine.bareMachine 0x400000 0x3000 0x02 ∧
    ¬ Unharmed usedMachine 0x400000 0x3000 0x02 := by
  have absent : ¬ usedMachine.Present (getPageDirIndex 0x400000) := by
    have entries := usedMachine_kept.directoryEntry Machine.bareMachine_tables.self
      (show (getPageDirIndex 0x400000).toNat < 1024 by decide)
    rw [Machine.Present, show usedMachine.directoryEntry _ = _ from entries, ← Machine.Present,
      Machine.bareMachine_present (by decide)]
    decide
  have first : leftover usedMachine 0 = 1 := by decide
  constructor
  · refine (mapAddress_unharmed_iff Machine.bareMachine 0x400000 0x3000 0x02 Machine.bareMachine_tables (by decide)
      fun _ => ⟨2, by decide, by decide⟩).mpr (.inr fun pti within set => ?_)
    rw [leftover_bareMachine within, testFlag_zero] at set
    cases set
  · rw [mapAddress_unharmed_iff usedMachine 0x400000 0x3000 0x02 usedMachine_tables (by decide)
      fun _ => ⟨2, by decide, by decide⟩]
    rintro (present | harmless)
    · exact absent present
    · have target := (harmless 0 (by decide) (by rw [first]; decide)).2
      rw [first] at target
      exact absurd target (by decide)

end ScratchOs.Tlb
