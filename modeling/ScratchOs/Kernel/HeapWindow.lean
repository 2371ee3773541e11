import ScratchOs.Kernel.Booted

namespace ScratchOs

open Data

/-! The heap window by itself.

The manager's nodes lie in the heap window, whose pages have frames of their own
whatever flags the pages of the other window were mapped with. Which of those
pages are there changes in the mapping loop of `vmm_alloc` only. -/

namespace Machine

variable {machine after : Machine} {virtualAddr : Word}

def heapWindow : Window where
  pages := heapPages
  decidable _ := inferInstanceAs (Decidable (_ ∧ _))
  outside member := (heapPages_slot member).2
  whole {other virtualAddr} same member := by
    rw [SamePage] at same
    obtain ⟨lower, upper⟩ := member
    exact ⟨by omega, by omega⟩

abbrev heapBytes (machine : Machine) : ByteMemory := machine.bytesOn heapWindow

theorem heapAllowed_heapWindow : Heap.HeapAllowed (viewOn heapWindow) :=
  fun _ lower upper => ⟨⟨lower, by omega⟩, by decide⟩

/-- The pages of the manager's window that are there. -/
def otherPages (machine : Machine) : Set Word := machine.Mapped \ heapPages

theorem SameEntries.mapped (same : machine.SameEntries after) : after.Mapped = machine.Mapped := by
  ext address
  rw [Mapped, MappedOn, Mapped, MappedOn, Set.mem_ofPred_eq, Set.mem_ofPred_eq, frameOf, same.walk, ← frameOf]

theorem SameEntries.otherPages (same : machine.SameEntries after) : after.otherPages = machine.otherPages := by
  rw [Machine.otherPages, same.mapped, Machine.otherPages]

theorem mapped_otherPages {frame flags : Word} (tables : machine.TablesSound)
    (new : machine.NewTable (getPageDirIndex virtualAddr)) (member : virtualAddr ∈ heapPages) :
    (machine.mapped virtualAddr frame flags).otherPages = machine.otherPages := by
  have frames : ∀ address ∈ managed, address ∉ heapPages →
      (machine.mapped virtualAddr frame flags).frameOf address = machine.frameOf address := by
    intro address managedAddress elsewhere
    refine mapped_frameOf_other tables (heapPages_slot member).2 new (managed_outside managedAddress) fun page => ?_
    exact elsewhere (heapWindow.whole page member)
  ext address
  constructor
  · rintro ⟨⟨managedAddress, there⟩, elsewhere⟩
    rw [frames address managedAddress elsewhere] at there
    exact ⟨⟨managedAddress, there⟩, elsewhere⟩
  · rintro ⟨⟨managedAddress, there⟩, elsewhere⟩
    rw [← frames address managedAddress elsewhere] at there
    exact ⟨⟨managedAddress, there⟩, elsewhere⟩

/-- The heap window as flat memory, beside fixed pages of the other window. -/
def heapBeside (pages : Set Word) : FlatView platform :=
  (viewOn heapWindow).strengthen (fun machine => machine.otherPages = pages)
    (fun virtualAddr flags => virtualAddr ∈ heapPages ∧ flags.toNat < 4096) id
    (by
      intro machine address value after exclusive beside mapped run
      obtain ⟨_, result, _, _, _, same, _⟩ := ExclusiveOn.store8 exclusive mapped value
      cases run.symm.trans result
      exact same.otherPages.trans beside)
    (by
      intro machine address value after exclusive beside room mapped run
      obtain ⟨_, result, _, _, _, same, _⟩ := ExclusiveOn.store32 exclusive room mapped value
      cases run.symm.trans result
      exact same.otherPages.trans beside)
    (by
      intro machine virtualAddr flags mapped after exclusive beside allowed nonnull run
      have tables := exclusive.tables.allocBlock
      have inside := (heapPages_slot allowed.1).2
      cases found : machine.allocBlock.2.walk virtualAddr with
      | some entries =>
          have refused := @mapAddress_of_mapped machine.allocBlock.2 virtualAddr machine.allocBlock.1 flags tables inside
            (by rw [found]; rfl)
          cases run.symm.trans refused
          exact ⟨beside, fun _ => beside⟩
      | none =>
          have new := exclusive.newTable nonnull (getPageDirIndex virtualAddr)
          have entered := @mapAddress_of_unmapped machine.allocBlock.2 virtualAddr machine.allocBlock.1 flags tables
            inside new found
          cases run.symm.trans entered
          exact ⟨(mapped_otherPages tables new allowed.1).trans beside, fun refused => by contradiction⟩)

theorem heapAllowed_heapBeside (pages : Set Word) : Heap.HeapAllowed (heapBeside pages) :=
  fun _ lower upper => ⟨⟨lower, by omega⟩, by decide⟩

theorem kmallocReady_heapBeside {pages : Set Word} (nbytes : Word) (heap : Heap Machine) :
    Heap.KmallocReady (heapBeside pages) nbytes heap :=
  Heap.kmallocReady_of_ready (fun _ _ _ nonnull => nonnull) nbytes heap

/-- The pages with these numbers. -/
def pageRun (first count : Nat) : Set Word :=
  { address | first ≤ address.toNat / 4096 ∧ address.toNat / 4096 < first + count }

/-- One round of the mapping loop elsewhere, with any flags: the page is there
afterwards, and it is the only one that can be new. -/
theorem round_otherPages (exclusive : machine.ExclusiveOn heapWindow) (member : virtualAddr ∈ managed)
    (elsewhere : virtualAddr ∉ heapPages) (nonnull : machine.allocBlock.1 ≠ 0) (flags : Word) :
    ∃ mapped next, mapAddress virtualAddr machine.allocBlock.1 flags machine.allocBlock.2 = some (mapped, next) ∧
      (if mapped then next else freeBlock machine.allocBlock.1 next).ExclusiveOn heapWindow ∧
      (if mapped then next else freeBlock machine.allocBlock.1 next).Mapped = machine.Mapped ∪ pageOf virtualAddr := by
  have tables := exclusive.tables.allocBlock
  have inside := managed_outside member
  cases found : machine.allocBlock.2.walk virtualAddr with
  | some entries =>
      refine ⟨false, _, mapAddress_of_mapped tables inside (by rw [found]; rfl), exclusive.giveBack nonnull, ?_⟩
      have present : virtualAddr ∈ machine.Mapped := by
        refine ⟨member, ?_⟩
        rw [frameOf, show machine.walk virtualAddr = some entries from found]
        rfl
      refine (Set.union_eq_left.mpr fun address page => ?_).symm
      exact mapped_samePage (mem_pageOf_iff.mp page) present
  | none =>
      have new := exclusive.newTable nonnull (getPageDirIndex virtualAddr)
      refine ⟨true, _, mapAddress_of_unmapped tables inside new found,
        (exclusive.mapped_elsewhere inside elsewhere nonnull flags).1, ?_⟩
      ext address
      by_cases page : SamePage address virtualAddr
      · refine iff_of_true ⟨managed_samePage page member, ?_⟩ (.inr (mem_pageOf_iff.mpr page))
        obtain ⟨ready, tablesAfter, _⟩ := tables.withTable inside new
        rw [if_pos rfl, frameOf, walk_samePage page, Machine.mapped,
          tablesAfter.walk_setEntry_self inside ready.withTable.present, if_pos (testFlag_mappedEntry ..)]
        rfl
      · have other : address ∉ pageOf virtualAddr := fun listed => page (mem_pageOf_iff.mp listed)
        rw [Set.mem_union, or_iff_left other]
        refine and_congr_right fun managedAddress => ?_
        rw [if_pos rfl, mapped_frameOf_other tables inside new (managed_outside managedAddress) page]
        rfl

/-- The mapping loop in the manager's window, with any flags: only pages of the
run are new, and at its end they are all there. -/
theorem mapPages_otherPages {count : Nat} {flags : Word} {heap paged : Heap Machine} {mapped : Bool}
    (exclusive : heap.world.ExclusiveOn heapWindow) (lower : 0x400000 ≤ virtualAddr.toNat)
    (limit : virtualAddr.toNat + 4096 * count ≤ 0xC0001000)
    (run : mapPages (heapPlatform platform).toPlatform pageSize flags count virtualAddr heap = some (mapped, paged)) :
    heap.world.Mapped ⊆ paged.world.Mapped ∧
      paged.world.Mapped ⊆ heap.world.Mapped ∪ pageRun (virtualAddr.toNat / 4096) count ∧
      (mapped = true → pageRun (virtualAddr.toNat / 4096) count ⊆ paged.world.Mapped) := by
  induction count generalizing virtualAddr heap with
  | zero =>
      cases run
      refine ⟨subset_rfl, Set.subset_union_left, fun _ address listed => ?_⟩
      obtain ⟨first, last⟩ := listed
      omega
  | succ count ih =>
      rw [mapPages] at run
      by_cases null : ((heapPlatform platform).allocBlock heap).1 = 0
      · rw [if_pos null] at run
        cases run
        exact ⟨subset_rfl, Set.subset_union_left, fun done => absurd done Bool.false_ne_true⟩
      · have member : virtualAddr ∈ managed := .inl ⟨lower, by omega⟩
        have elsewhere : virtualAddr ∉ heapPages := fun inside => by
          have high := inside.1
          omega
        obtain ⟨entered, next, mapping, soundNext, pages⟩ := round_otherPages exclusive member elsewhere null flags
        have round : (heapPlatform platform).mapAddress virtualAddr ((heapPlatform platform).allocBlock heap).1 flags
            ((heapPlatform platform).allocBlock heap).2 = some (entered, { heap with world := next }) := by
          simp only [heapPlatform, platform, mapping, Option.map_some]
        rw [if_neg null, round, Option.bind_eq_bind, Option.bind_some] at run
        have advance := @toNat_add_pageSize virtualAddr (by omega)
        have kept : (if entered then ({ heap with world := next } : Heap Machine)
            else (heapPlatform platform).freeBlock ((heapPlatform platform).allocBlock heap).1
              { heap with world := next }).world =
              if entered then next else freeBlock heap.world.allocBlock.1 next := by
          cases entered with
          | false => rfl
          | true => rfl
        have lowerNext : 0x400000 ≤ (virtualAddr + pageSize).toNat := Nat.le_trans lower (Nat.le.intro advance.symm)
        have limitNext : (virtualAddr + pageSize).toNat + 4096 * count ≤ 0xC0001000 := by
          rw [advance]
          omega
        rw [← kept] at soundNext
        obtain ⟨grows, new, covered⟩ := ih soundNext lowerNext limitNext run
        rw [kept, pages] at grows new
        rw [advance] at new covered
        have split : pageRun (virtualAddr.toNat / 4096) (count + 1) =
            pageOf virtualAddr ∪ pageRun ((virtualAddr.toNat + 4096) / 4096) count := by
          ext address
          simp only [pageRun, Set.mem_union, mem_pageOf_iff, SamePage, Set.mem_ofPred_eq]
          omega
        rw [split]
        refine ⟨Set.subset_union_left.trans grows, by rwa [← Set.union_assoc], fun done => ?_⟩
        exact Set.union_subset (Set.subset_union_right.trans grows) (covered done)

end Machine

namespace Kernel

open Machine

variable {state : State Machine} {machine : Machine} {blocks nodes : List Word} {overhang : Word}
  {allocations : List Heap.Live}

theorem pagesKeep_heapWindow (flags : Word) : Vmm.PagesKeep (viewOn heapWindow).withHeap flags := by
  intro virtualAddr heap lower upper sound
  have inside : (getPageDirIndex virtualAddr).toNat < 1023 := by
    rw [getPageDirIndex_toNat]
    omega
  have elsewhere : virtualAddr ∉ heapWindow.pages := by
    rintro ⟨high, _⟩
    omega
  exact (roundKeeps_elsewhere inside elsewhere flags sound).withHeap

theorem callReady_heapWindow {vmm : Vmm (Heap Machine)} {call : Call} (within : Unwrapped platform vmm call) :
    CallReady (viewOn heapWindow) vmm call := by
  cases call with
  | initializeVmm => exact kmallocReady_machine _ _
  | kmalloc nbytes => exact ⟨within, kmallocReady_machine _ _⟩
  | kfree ptr => trivial
  | vmmAlloc size flags => exact ⟨pagesKeep_heapWindow flags, fun _ _ => kmallocReady_machine _ _⟩
  | vmmFree ptr => trivial

/-- The stack with its heap window beside the pages of the other one. -/
theorem Linked.beside (linked : Linked (viewOn heapWindow) state blocks overhang allocations nodes) :
    Linked (heapBeside state.vmm.world.world.otherPages) state blocks overhang allocations nodes where
  heap := { linked.heap with sound := ⟨linked.heap.sound, rfl⟩ }
  vmm := linked.vmm.imp_right fun ⟨base, inv⟩ => ⟨base, { inv with sound := ⟨inv.sound, rfl⟩ }⟩
  nodesLive := linked.nodesLive
  clientsLive := linked.clientsLive

/-! Calls into the heap leave the other pages as they were. -/

theorem Linked.kmalloc_otherPages (linked : Linked (viewOn heapWindow) state blocks overhang allocations nodes)
    {nbytes ptr : Word} {heap : Heap Machine} (fits : Heap.RequestFits platform nbytes state.vmm.world)
    (run : Heap.kmalloc platform nbytes state.vmm.world = some (ptr, heap)) :
    heap.world.otherPages = state.vmm.world.world.otherPages := by
  obtain ⟨_, _, _, _, result, inv, _⟩ := Heap.kmalloc_spec (heapAllowed_heapBeside _) linked.beside.heap fits
    (kmallocReady_heapBeside _ _)
  cases run.symm.trans result
  exact inv.sound.2

theorem Linked.kfree_otherPages (linked : Linked (viewOn heapWindow) state blocks overhang allocations nodes)
    {nbytes ptr : Word} {heap : Heap Machine} (live : (ptr, nbytes) ∈ allocations)
    (run : Heap.kfree platform ptr state.vmm.world = some heap) :
    heap.world.otherPages = state.vmm.world.world.otherPages := by
  obtain ⟨_, _, _, result, inv, _⟩ := Heap.kfree_spec linked.beside.heap live
  cases run.symm.trans result
  exact inv.sound.2

theorem Linked.initializeVmm_otherPages (linked : Linked (viewOn heapWindow) state blocks overhang allocations nodes)
    {vmm : Vmm (Heap Machine)} (run : Vmm.initializeVmm (heapPlatform platform) state.vmm.world = some vmm) :
    vmm.world.world.otherPages = state.vmm.world.world.otherPages := by
  obtain ⟨_, _, _, _, allocated, inv, keeps⟩ := @kmalloc_node _ _ (heapBeside _) _ _ [] _ _ (heapAllowed_heapBeside _)
    linked.beside.heap (by simp) (kmallocReady_heapBeside vmMetaSize state.vmm.world)
  obtain ⟨_, _, result, again, _, outcome⟩ := Vmm.initializeVmm_spec keeps
  cases run.symm.trans result
  cases allocated.symm.trans again
  rcases outcome with ⟨_, refused⟩ | ⟨_, vmmInv, _⟩
  · rw [refused]
    exact inv.sound.2
  · exact vmmInv.sound.2

theorem Linked.split_otherPages {front back : List Word} {node size : Word} {cut : Heap Machine}
    (linked : Linked (viewOn heapWindow) state blocks overhang allocations (front ++ node :: back))
    (free : (Vmm.region state.vmm.world.world.heapBytes node).free = true) (positive : 0 < size.toNat)
    (aligned : size.toNat % 4096 = 0)
    (large : size.toNat < (Vmm.region state.vmm.world.world.heapBytes node).size.toNat)
    (run : Vmm.splitVirtualMemoryRegion (heapPlatform platform) node size state.vmm.world = some cut) :
    cut.world.otherPages = state.vmm.world.world.otherPages := by
  have keeps := linked.beside.kmallocKeeps (heapAllowed_heapBeside _) (kmallocReady_heapBeside _ _)
  have inv := (linked.beside.vmm.resolve_left fun unset => by simp at unset).2
  obtain ⟨_, _, _, _, result, invAfter, _⟩ := inv.split keeps free positive aligned large
  cases run.symm.trans result
  exact invAfter.sound.2

theorem Reachable.consistent_heapWindow {condition : Vmm (Heap Machine) → Call → Prop} (tables : machine.KernelTables)
    (booting : Heap.ReadyPages view Heap.initialPages kernelHeapStart machine)
    (within : ∀ vmm call, condition vmm call → Unwrapped platform vmm call)
    (reached : Reachable platform condition machine state) : Consistent (viewOn heapWindow) state :=
  reached.consistent heapAllowed_heapWindow (tables.exclusive.mono heapPages_subset) (booting.weaken id)
    fun vmm call meets => callReady_heapWindow (within vmm call meets)

end Kernel

end ScratchOs
