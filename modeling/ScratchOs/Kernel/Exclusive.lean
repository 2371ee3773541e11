import ScratchOs.Kernel.Stack
import ScratchOs.Paging.Runs
import ScratchOs.Paging.View

namespace ScratchOs

open Data

/-! The memory stack on the paged machine: which frames its pages are on. -/

namespace Machine

variable {machine after : Machine} {virtualAddr : Word}

/-- The kernel heap window and the window of the virtual memory manager. -/
def windows : Set Word :=
  { address | virtualMemoryStart ≤ address ∧ address < virtualMemoryEnd ∨
    kernelHeapStart ≤ address ∧ address < kernelHeapEnd }

/-- Pages of the windows have frames of their own, which are not frame 0 and
which the allocator knows to be used. -/
def FramesExclusive (machine : Machine) : Prop :=
  ∀ left ∈ windows, ∀ frame, machine.frameOf left = some frame →
    frame ≠ 0 ∧ machine.pmm.isBlockUsed (frame.toNat / 4096) = true ∧
      ∀ right ∈ windows, machine.frameOf right = some frame → SamePage left right

theorem windows_subset : windows ⊆ managed := by
  rintro address (⟨lower, upper⟩ | ⟨lower, upper⟩)
  · rw [BitVec.le_def, show virtualMemoryStart.toNat = 0x400000 from rfl] at lower
    rw [BitVec.lt_def, show virtualMemoryEnd.toNat = 0xC0000000 from rfl] at upper
    exact .inl ⟨lower, by omega⟩
  · rw [BitVec.le_def, show kernelHeapStart.toNat = 0xD0000000 from rfl] at lower
    rw [BitVec.lt_def, show kernelHeapEnd.toNat = 0xE0000000 from rfl] at upper
    exact .inr ⟨lower, by omega⟩

theorem Exclusive.framesExclusive (exclusive : machine.Exclusive) : machine.FramesExclusive := by
  intro left member frame found
  have nonnull : frame ≠ 0 := fun null => exclusive.nonnull left (windows_subset member) (by rw [found, null])
  exact ⟨nonnull, exclusive.apart.used left (windows_subset member) frame found nonnull,
    fun right rightMember rightFound => exclusive.apart.distinct left (windows_subset member) right
      (windows_subset rightMember) frame found rightFound nonnull⟩

/-! The state `initialize_paging` leaves. -/

/-- The only managed page on the kernel's own tables is the kernel's first one. -/
theorem KernelTables.managed_page (kernel : machine.KernelTables) (member : virtualAddr ∈ managed) {frame : Word}
    (found : machine.frameOf virtualAddr = some frame) :
    virtualAddr.toNat / 4096 = 0xC0000 ∧ frame = kernelLoadAddr := by
  obtain ⟨identity, kernelTable, three⟩ := kernel.slots
  have present := present_of_frameOf found
  have slot : getPageDirIndex virtualAddr = 768 := by
    have inside := managed_outside member
    have index := getPageDirIndex_toNat virtualAddr
    rcases three.cases (by omega) present with ⟨first, _⟩ | ⟨second, _⟩ | ⟨last, _⟩
    · rw [first] at index
      rcases member with bounds | bounds <;> simp at index <;> omega
    · exact second
    · rw [last] at inside
      simp at inside
  have index := getPageDirIndex_toNat virtualAddr
  rw [slot, show (768 : Word).toNat = 768 from rfl] at index
  have page : virtualAddr.toNat / 4096 = 0xC0000 := by rcases member with bounds | bounds <;> omega
  have first : getPageTableIndex virtualAddr = 0 := by
    apply BitVec.eq_of_toNat_eq
    rw [getPageTableIndex_toNat, page]
    rfl
  refine ⟨page, ?_⟩
  obtain ⟨set, address⟩ := three.kernelFilled 0 (by decide)
  rw [← three.kernelFrame, tableFrame] at set address
  rw [frameOf, walk_of_present present, slot, first, entry, tableEntry, if_pos set, Option.map_some] at found
  rw [← Option.some.inj found]
  exact address

theorem KernelTables.exclusive (kernel : machine.KernelTables) : machine.Exclusive := by
  refine ⟨kernel.inv.tables, ⟨fun _ => managed_outside, ?_, ?_, ?_⟩, ?_, kernel.reserved 0 (by decide), ?_⟩
  · intro address member frame found _
    rw [(kernel.managed_page member found).2]
    exact kernel.reserved _ (by decide)
  · intro address member frame found _ slot inside present same
    have high := kernel.high slot inside present
    rw [same, (kernel.managed_page member found).2] at high
    exact absurd high (by decide)
  · intro left leftMember right rightMember frame leftFound rightFound _
    exact (kernel.managed_page leftMember leftFound).1.trans (kernel.managed_page rightMember rightFound).1.symm
  · intro address member found
    exact absurd (kernel.managed_page member found).2 (by decide)
  · exact fun slot inside present null => absurd null (kernel.inv.nonnull slot inside present)

/-! Frames for the initial heap. -/

theorem heapAllowed : Heap.HeapAllowed view := by
  intro address lower upper
  exact ⟨.inr ⟨lower, by omega⟩, by decide⟩

/-- Free frames after one page of the heap: one less, or two with its table. -/
theorem getNumFreeBlocks_withTable (pdi : Word) :
    (machine.withTable pdi).pmm.getNumFreeBlocks =
      machine.pmm.getNumFreeBlocks - if machine.Present pdi then 0 else 1 := by
  by_cases present : machine.Present pdi
  · rw [withTable_of_present present, if_pos present, Nat.sub_zero]
  · rw [withTable_of_absent present, if_neg present]
    exact Pmm.getNumFreeBlocks_allocBlock

/-- The first 4 MiB of the heap window share one table. -/
theorem heapSlot (lower : 0xD0000000 ≤ virtualAddr.toNat) (upper : virtualAddr.toNat < 0xD0400000) :
    getPageDirIndex virtualAddr = 832 := by
  apply BitVec.eq_of_toNat_eq
  rw [getPageDirIndex_toNat, show (832 : Word).toNat = 832 from rfl]
  omega

/-- Enough frames for the pages of a run within one slot, and for its table. -/
theorem readyPages {count : Nat} (exclusive : machine.Exclusive) (lower : 0xD0000000 ≤ virtualAddr.toNat)
    (upper : virtualAddr.toNat + 4096 * count ≤ 0xD0400000)
    (enough : count + (if machine.Present 832 then 0 else 1) ≤ machine.pmm.getNumFreeBlocks) :
    Heap.ReadyPages view count virtualAddr machine := by
  induction count generalizing virtualAddr machine with
  | zero => trivial
  | succ count ih =>
      have rest : virtualAddr.toNat + 4096 + 4096 * count ≤ 0xD0400000 := by
        rwa [Nat.mul_succ, Nat.add_comm (4096 * count), ← Nat.add_assoc] at upper
      have slot : getPageDirIndex virtualAddr = 832 := heapSlot lower (by omega)
      have member : virtualAddr ∈ managed := .inr ⟨lower, by omega⟩
      have nonnull : machine.allocBlock.1 ≠ 0 :=
        Pmm.allocBlock_ne_zero exclusive.zeroUsed (Pmm.getNumFreeBlocks_pos.mp (by omega))
      refine ⟨nonnull, fun after run => ?_⟩
      have tables := exclusive.tables.allocBlock
      have new := exclusive.newTable nonnull (getPageDirIndex virtualAddr)
      have inside := managed_outside member
      cases found : machine.allocBlock.2.walk virtualAddr with
      | some entries =>
          have refused := @mapAddress_of_mapped machine.allocBlock.2 virtualAddr machine.allocBlock.1 pteReadWrite
            tables inside (by rw [found]; rfl)
          cases run.symm.trans refused
      | none =>
          have entered := @mapAddress_of_unmapped machine.allocBlock.2 virtualAddr machine.allocBlock.1 pteReadWrite
            tables inside new found
          cases run.symm.trans entered
          have present : (machine.allocBlock.2.mapped virtualAddr machine.allocBlock.1 pteReadWrite).Present 832 := by
            rw [← slot]
            exact present_of_frameOf (mapped_frameOf_self tables inside new machine.pmm.allocBlock_mod
              (flagsKeep_of_lt machine.pmm.allocBlock_mod (by decide)) rfl)
          have next := @toNat_add_pageSize virtualAddr (by omega)
          refine ih (exclusive.mapped member (by decide) nonnull) (Nat.le_trans lower (Nat.le.intro next.symm))
            (next.symm ▸ rest) ?_
          rw [if_pos present]
          change count + 0 ≤ (machine.allocBlock.2.withTable (getPageDirIndex virtualAddr)).pmm.getNumFreeBlocks
          have left : machine.allocBlock.2.pmm.getNumFreeBlocks = machine.pmm.getNumFreeBlocks - 1 :=
            Pmm.getNumFreeBlocks_allocBlock
          rw [getNumFreeBlocks_withTable, slot, left]
          change count + 0 ≤ machine.pmm.getNumFreeBlocks - 1 - if machine.Present 832 then 0 else 1
          omega

end Machine

namespace Kernel

/-- No request wraps around the end of the address space, and flags are flags. -/
def Modest (vmm : Vmm (Heap Machine)) : Call → Prop
  | .kmalloc nbytes => Heap.RequestFits Machine.platform nbytes vmm.world
  | .vmmAlloc _ flags => flags.toNat < 4096
  | _ => True

theorem kmallocReady_machine {window : Machine.Window} (nbytes : Word) (heap : Heap Machine) :
    Heap.KmallocReady (Machine.viewOn window) nbytes heap :=
  Heap.kmallocReady_of_ready (fun _ _ _ nonnull => nonnull) nbytes heap

/-- Both allocators look at a frame before they map it. -/
theorem callReady_machine {vmm : Vmm (Heap Machine)} {call : Call} (modest : Modest vmm call) :
    CallReady Machine.view vmm call := by
  cases call with
  | initializeVmm => exact kmallocReady_machine _ _
  | kmalloc nbytes => exact ⟨modest, kmallocReady_machine _ _⟩
  | kfree ptr => trivial
  | vmmAlloc size flags =>
      refine ⟨fun address heap lower upper sound => ?_, fun _ _ => kmallocReady_machine _ _⟩
      exact .of_allowed sound ⟨.inl ⟨lower, by omega⟩, modest⟩ id
  | vmmFree ptr => trivial

variable {σ : Type} {platform : Platform σ} {view : FlatView platform} {state : State σ}

theorem Consistent.sound (consistent : Consistent view state) : view.Sound state.vmm.world.world := by
  rcases consistent with ⟨sound, _⟩ | ⟨_, _, _, _, linked⟩
  · exact sound
  · exact linked.heap.sound

/-- The machine `initialize_paging` leaves has the frames for the initial heap. -/
theorem booted_machine {memory : ByteMemory} {pmm : Pmm} (reserved : ∀ block < 1024, pmm.isBlockUsed block = true)
    (enough : 22 ≤ pmm.getNumFreeBlocks) :
    ∃ machine, Machine.initializePaging (Stage2.machine memory pmm) = some machine ∧ machine.KernelTables ∧
      machine.pmm.getNumFreeBlocks = pmm.getNumFreeBlocks - 4 ∧
      Heap.ReadyPages Machine.view Heap.initialPages kernelHeapStart machine := by
  obtain ⟨machine, booted, _, kernel⟩ := @Machine.initializePaging_spec memory pmm reserved (by omega)
  obtain ⟨tables, free⟩ := kernel (by omega)
  have frames : 17 + 1 ≤ machine.pmm.getNumFreeBlocks := by omega
  refine ⟨machine, booted, tables, free, ?_⟩
  refine Machine.readyPages tables.exclusive (by decide) (by decide) (Nat.le_trans ?_ frames)
  split
  · decide
  · decide

/-- With the 22 frames that `initialize_paging` and `initialize_kernel_heap`
take, no two pages of the windows ever share a frame, whatever runs out later. -/
theorem frames_exclusive (memory : ByteMemory) (pmm : Pmm) (reserved : ∀ block < 1024, pmm.isBlockUsed block = true)
    (enough : 22 ≤ pmm.getNumFreeBlocks) :
    ∃ machine, Machine.initializePaging (Stage2.machine memory pmm) = some machine ∧
      (Heap.initializeKernelHeap Machine.platform machine).isSome = true ∧
      ∀ state, Reachable Machine.platform Modest machine state →
        state.vmm.world.world.FramesExclusive ∧
        ∀ call : Call, call.Legal state → Modest state.vmm call → (call.run Machine.platform state).isSome = true := by
  obtain ⟨machine, booted, tables, _, booting⟩ := @booted_machine memory pmm reserved enough
  have exclusive := tables.exclusive
  refine ⟨machine, booted, ?_, fun state reached => ?_⟩
  · rcases Heap.initializeKernelHeap_spec Machine.heapAllowed exclusive booting with
      ⟨_, _, _, gaveUp⟩ | ⟨_, _, _, created, _⟩
    · rw [gaveUp]
      rfl
    · rw [created]
      rfl
  · have consistent := reached.consistent Machine.heapAllowed exclusive booting fun _ _ => callReady_machine
    refine ⟨Machine.Exclusive.framesExclusive consistent.sound, fun call legal modest => ?_⟩
    obtain ⟨after, run, _⟩ := consistent.call Machine.heapAllowed legal (callReady_machine modest)
    rw [run]
    rfl

/-- The least number of frames: 22 of them, and the heap is set up. -/
theorem frames_exclusive_enough : ∃ machine heap,
    Machine.initializePaging (Stage2.machine (fun _ => 0) (Machine.framesLeft 22 (by decide))) = some machine ∧
      Heap.initializeKernelHeap Machine.platform machine = some heap ∧ heap.world.FramesExclusive := by
  have free : (Machine.framesLeft 22 (by decide)).getNumFreeBlocks = 22 := by decide +kernel
  obtain ⟨machine, booted, created, runs⟩ := frames_exclusive (fun _ => 0) (Machine.framesLeft 22 (by decide))
    Machine.framesLeft_reserved (by omega)
  obtain ⟨heap, run⟩ := Option.isSome_iff_exists.mp created
  exact ⟨machine, heap, booted, run, (runs _ (.boot run)).1⟩

end Kernel

/-! Fewer frames than the initial heap has pages. -/

namespace Machine

variable {machine : Machine} {virtualAddr : Word} {pages : Set Word}

theorem allocBlock_exhausted (exhausted : ¬ machine.FrameFree) : machine.allocBlock = (0, machine) := by
  rcases machine.pmm.allocBlock_cases with ⟨_, taken⟩ | ⟨block, below, unused, _⟩
  · rw [allocBlock, taken]
  · exact absurd ⟨block, below, unused⟩ exhausted

/-- `initialize_kernel_heap` goes on mapping when there are no frames left:
every further page is put on frame 0. -/
theorem mapInitialPages_exhausted {count : Nat} (inv : machine.PagingInv pages) (exhausted : ¬ machine.FrameFree)
    (present : machine.Present 832) (lower : 0xD0000000 ≤ virtualAddr.toNat)
    (upper : virtualAddr.toNat + 4096 * count ≤ 0xD0400000) (aligned : virtualAddr.toNat % 4096 = 0)
    (unmapped : ∀ other ∈ span virtualAddr.toNat (4096 * count), machine.frameOf other = none) :
    ∃ after pages', Heap.mapInitialPages platform count virtualAddr machine = some (true, after) ∧
      after.PagingInv pages' ∧ ¬ after.FrameFree ∧ pages ⊆ pages' ∧
      (∀ other ∈ span virtualAddr.toNat (4096 * count), other ∈ pages' ∧ after.frameOf other = some 0) ∧
      ∀ other : Word, (getPageDirIndex other).toNat < 1023 → other ∉ span virtualAddr.toNat (4096 * count) →
        after.frameOf other = machine.frameOf other := by
  induction count generalizing virtualAddr machine pages with
  | zero =>
      refine ⟨machine, pages, rfl, inv, exhausted, subset_rfl, fun other inside => ?_, fun _ _ _ => rfl⟩
      rw [mem_span] at inside
      omega
  | succ count ih =>
      have slot : getPageDirIndex virtualAddr = 832 := heapSlot lower (by omega)
      have inside : (getPageDirIndex virtualAddr).toNat < 1023 := by rw [slot]; decide
      have taken := allocBlock_exhausted exhausted
      have keep : FlagsKeep 0 pteReadWrite := flagsKeep_of_lt (by decide) (by decide)
      have new : machine.NewTable (getPageDirIndex virtualAddr) := fun absent => absurd (slot ▸ present) absent
      have taking := @PagingInv.take machine virtualAddr pages pteReadWrite inv inside
        (fun absent => absurd (slot ▸ present) absent) (by rw [taken]; exact keep)
      rw [taken] at taking
      have here : ∀ other, SamePage other virtualAddr →
          (machine.mapped virtualAddr 0 pteReadWrite).frameOf other = some 0 := fun other same =>
        mapped_frameOf_self inv.tables inside new (by decide) keep same
      have elsewhere : ∀ other : Word, (getPageDirIndex other).toNat < 1023 → ¬ SamePage other virtualAddr →
          (machine.mapped virtualAddr 0 pteReadWrite).frameOf other = machine.frameOf other := fun other outside =>
        mapped_frameOf_other inv.tables inside new outside
      have run := @mapAddress_of_unmapped machine virtualAddr 0 pteReadWrite inv.tables inside new
        (Option.map_eq_none_iff.mp (unmapped virtualAddr (by rw [mem_span]; omega)))
      have full : ¬ (machine.mapped virtualAddr 0 pteReadWrite).FrameFree := by
        rw [mapped, withTable_of_present (slot ▸ present)]
        exact exhausted
      have presentAfter : (machine.mapped virtualAddr 0 pteReadWrite).Present 832 :=
        slot ▸ present_of_frameOf (here virtualAddr rfl)
      have next := @toNat_add_pageSize virtualAddr (by omega)
      generalize machine.mapped virtualAddr 0 pteReadWrite = middle at *
      have rest : ∀ other : Word, other ∈ span virtualAddr.toNat (4096 * (count + 1)) →
          ¬ SamePage other virtualAddr → other ∈ span (virtualAddr + pageSize).toNat (4096 * count) := by
        intro other listed different
        rw [next]
        exact ((mem_span_pages_succ aligned).mp listed).resolve_left different
      have apart : ∀ other : Word, other ∈ span (virtualAddr + pageSize).toNat (4096 * count) →
          other ∈ span virtualAddr.toNat (4096 * (count + 1)) ∧ ¬ SamePage other virtualAddr := by
        intro other listed
        rw [next] at listed
        exact ⟨(mem_span_pages_succ aligned).mpr (.inr listed), not_samePage_of_behind listed⟩
      have window : ∀ other : Word, other ∈ span virtualAddr.toNat (4096 * (count + 1)) →
          (getPageDirIndex other).toNat < 1023 := by
        intro other listed
        rw [mem_span] at listed
        rw [getPageDirIndex_toNat]
        omega
      have remaining : (virtualAddr + pageSize).toNat + 4096 * count ≤ 0xD0400000 := by
        rw [next, Nat.add_assoc, Nat.add_comm 4096, ← Nat.mul_succ]
        exact upper
      obtain ⟨after, pages', rerun, invAfter, fullAfter, subset, nulls, kept⟩ := ih taking full presentAfter
        (Nat.le_trans lower (Nat.le.intro next.symm)) remaining (by rw [next]; omega) (fun other listed => by
          obtain ⟨member, different⟩ := apart other listed
          rw [elsewhere other (window other member) different, unmapped other member])
      refine ⟨after, pages', ?_, invAfter, fullAfter, Set.subset_union_left.trans subset, fun other listed => ?_,
        fun other outside unlisted => ?_⟩
      · rw [Heap.mapInitialPages]
        simp only [platform, taken, run, Option.bind_eq_bind, Option.bind_some, if_true]
        exact rerun
      · by_cases same : SamePage other virtualAddr
        · rw [kept other (window other listed) fun later => (apart other later).2 same]
          exact ⟨subset (.inr (mem_pageOf_iff.mpr same)), here other same⟩
        · exact nulls other (rest other listed same)
      · have different : ¬ SamePage other virtualAddr := fun same =>
          unlisted ((mem_span_pages_succ aligned).mpr (.inl same))
        rw [kept other outside fun later => unlisted (apart other later).1, elsewhere other outside different]

theorem PageStable.store_outside {frame pti : Word} (stable : machine.PageStable virtualAddr frame)
    (aligned : frame.toNat % 4096 = 0) (within : pti.toNat < 1024) (value : Word) :
    ∃ memory', store32 (entryAddress virtualAddr pti) value machine = some { machine with memory := memory' } ∧
      Set.EqOn memory' machine.memory (frameSpan frame)ᶜ :=
  ⟨_, stable.store_entry within value, write_entry_outside aligned within⟩

/-- What `initialize_kernel_heap` stores stays in the frame of its first page. -/
theorem PageStable.initializeKernelHeap {frame : Word} {mapped : Machine}
    (run : Heap.mapInitialPages platform Heap.initialPages kernelHeapStart machine = some (true, mapped))
    (stable : mapped.PageStable kernelHeapStart frame) (aligned : frame.toNat % 4096 = 0) :
    ∃ heap memory', Heap.initializeKernelHeap platform machine = some heap ∧
      heap.world = { mapped with memory := memory' } ∧
      Set.EqOn memory' mapped.memory (frameSpan frame)ᶜ := by
  obtain ⟨memory1, freed, outside1⟩ : ∃ memory',
      Heap.storeFree platform kernelHeapStart true mapped = some { mapped with memory := memory' } ∧
        Set.EqOn memory' mapped.memory (frameSpan frame)ᶜ := by
    have place := stable mapped.memory (fun _ _ => rfl) 8 (by decide)
    refine ⟨mapped.memory.write8 (frame + 8) 1, ?_, ?_⟩
    · change Machine.store8 _ _ _ = _
      rw [Machine.store8, place, Option.map_some, if_pos rfl]
    · refine (mapped.memory.write8_outside _ 1).mono (Set.compl_subset_compl.mpr ?_)
      intro address
      rw [mem_span, mem_span]
      bv_omega
  have stable1 := stable.congr outside1
  obtain ⟨memory2, sized, outside2⟩ := stable1.store_outside aligned (show (1 : Word).toNat < 1024 by decide)
    initialKernelHeapSize
  have stable2 := stable1.congr outside2
  obtain ⟨memory3, linked, outside3⟩ := stable2.store_outside aligned (show (0 : Word).toNat < 1024 by decide) 0
  have stable3 := stable2.congr outside3
  obtain ⟨memory4, marked, outside4⟩ := stable3.store_outside aligned (show (3 : Word).toNat < 1024 by decide)
    canaryValue
  have stable4 := stable3.congr outside4
  have loaded := @load32_of_translate _ (kernelHeapStart + 4) (frame + 4) fun lane small => by
    have translated := stable4 memory4 (fun _ _ => rfl) (4 + BitVec.ofNat 32 lane) (by bv_omega)
    rw [← BitVec.add_assoc, ← BitVec.add_assoc] at translated
    exact translated
  refine ⟨⟨kernelHeapStart, kernelHeapStart + memory4.read32 (frame + 4), { mapped with memory := memory4 }⟩, memory4,
    ?_, rfl, ((outside4.trans outside3).trans outside2).trans outside1⟩
  rw [Heap.initializeKernelHeap, run]
  simp only [Option.bind_eq_bind, Option.bind_some, if_true, freed]
  rw [show Heap.storeSize platform kernelHeapStart initialKernelHeapSize _ = _ from sized, Option.bind_some,
    show Heap.storeNext platform kernelHeapStart 0 _ = _ from linked, Option.bind_some,
    show Heap.storeCanary platform kernelHeapStart canaryValue _ = _ from marked, Option.bind_some,
    show Heap.loadSize platform kernelHeapStart _ = _ from loaded, Option.bind_some]

end Machine

namespace Kernel

open Machine

def secondPage : Word := 0xD0001000
def thirdPage : Word := 0xD0002000

theorem mem_laterPages {other : Word} (lower : 0xD0001000 ≤ other.toNat) (upper : other.toNat < 0xD0011000) :
    other ∈ span secondPage.toNat (4096 * 16) := by
  rw [mem_span, show secondPage.toNat = 0xD0001000 from rfl]
  exact ⟨lower, upper⟩

theorem laterPages_slot {other : Word} (listed : other ∈ span secondPage.toNat (4096 * 16)) :
    getPageDirIndex other = 832 ∧ ¬ SamePage other kernelHeapStart := by
  rw [mem_span, show secondPage.toNat = 0xD0001000 from rfl] at listed
  constructor
  · apply BitVec.eq_of_toNat_eq
    rw [getPageDirIndex_toNat, show (832 : Word).toNat = 832 from rfl]
    omega
  · rw [SamePage, show kernelHeapStart.toNat = 0xD0000000 from rfl]
    omega

/-- Six frames: four for `initialize_paging`, one for the first page of the heap
and one for its table. The other pages of the heap share frame 0. -/
structure SixFrames (machine mapped : Machine) (pages : Set Word) (frame : Word) : Prop where
  booted : Machine.initializePaging (Stage2.machine (fun _ => 0) (framesLeft 6 (by decide))) = some machine
  run : Heap.mapInitialPages platform Heap.initialPages kernelHeapStart machine = some (true, mapped)
  inv : mapped.PagingInv pages
  exhausted : ¬ mapped.FrameFree
  nonnull : frame ≠ 0
  firstPage : ∀ other, SamePage other kernelHeapStart → other ∈ pages ∧ mapped.frameOf other = some frame
  laterPages : ∀ other ∈ span secondPage.toNat (4096 * 16), other ∈ pages ∧ mapped.frameOf other = some 0

theorem sixFrames_booted : ∃ machine mapped pages frame, SixFrames machine mapped pages frame := by
  have free : (framesLeft 6 (by decide)).getNumFreeBlocks = 6 := by decide +kernel
  obtain ⟨machine, booted, inv, kernel⟩ := @initializePaging_spec (fun _ => 0) (framesLeft 6 (by decide))
    framesLeft_reserved (by omega)
  obtain ⟨tables, left⟩ := kernel (by omega)
  obtain ⟨_, _, three⟩ := tables.slots
  have absent : ¬ machine.Present 832 := by
    rw [Present, three.others 832 (by decide) (by decide) (by decide) (by decide), testFlag_zero]
    simp
  have unmapped : ∀ other : Word, getPageDirIndex other = 832 → machine.frameOf other = none := by
    intro other slot
    rw [frameOf, walk_of_absent (by rwa [slot])]
    rfl
  have nonnull : machine.allocBlock.1 ≠ 0 :=
    Pmm.allocBlock_ne_zero (tables.reserved 0 (by decide)) (Pmm.getNumFreeBlocks_pos.mp (by omega))
  have count1 : machine.allocBlock.2.pmm.getNumFreeBlocks = 1 := by
    have count := @Pmm.getNumFreeBlocks_allocBlock machine.pmm
    rw [left, free] at count
    exact count
  have enough : machine.allocBlock.2.FrameFree := Pmm.getNumFreeBlocks_pos.mp (by omega)
  -- The first page gets a frame and a table.
  have aligned : machine.allocBlock.1.toNat % 4096 = 0 := machine.pmm.allocBlock_mod
  have keep : FlagsKeep machine.allocBlock.1 pteReadWrite := flagsKeep_of_lt aligned (by decide)
  have slot0 : getPageDirIndex kernelHeapStart = 832 := by decide
  have inside : (getPageDirIndex kernelHeapStart).toNat < 1023 := by decide
  have new := @TablesSound.newTable _ (getPageDirIndex kernelHeapStart) inv.tables.allocBlock fun _ => enough
  have taking := inv.take inside (fun _ => enough) keep
  have first := @mapAddress_of_unmapped machine.allocBlock.2 kernelHeapStart machine.allocBlock.1 pteReadWrite
    inv.tables.allocBlock inside new (Option.map_eq_none_iff.mp (unmapped kernelHeapStart (by decide)))
  have here : ∀ other, SamePage other kernelHeapStart → (machine.allocBlock.2.mapped kernelHeapStart
      machine.allocBlock.1 pteReadWrite).frameOf other = some machine.allocBlock.1 := fun other same =>
    mapped_frameOf_self inv.tables.allocBlock inside new aligned keep same
  have elsewhere := fun other => @mapped_frameOf_other machine.allocBlock.2 kernelHeapStart other machine.allocBlock.1
    pteReadWrite inv.tables.allocBlock inside new
  have count2 : (machine.allocBlock.2.mapped kernelHeapStart machine.allocBlock.1 pteReadWrite).pmm.getNumFreeBlocks =
      0 := by
    have count := @getNumFreeBlocks_withTable machine.allocBlock.2 (getPageDirIndex kernelHeapStart)
    rw [count1, slot0, if_neg (show ¬ machine.allocBlock.2.Present 832 from absent)] at count
    exact count
  generalize machine.allocBlock.2.mapped kernelHeapStart machine.allocBlock.1 pteReadWrite = middle at *
  have present := present_of_frameOf (here kernelHeapStart rfl)
  rw [slot0] at present
  have full : ¬ middle.FrameFree := fun left => by
    have positive := Pmm.getNumFreeBlocks_pos.mpr left
    omega
  -- The other sixteen get nothing.
  obtain ⟨after, pages, rerun, invAfter, fullAfter, subset, nulls, kept⟩ := @mapInitialPages_exhausted middle secondPage _ 16 taking
    full present (by decide) (by decide) (by decide) fun other listed => by
      obtain ⟨slot, different⟩ := laterPages_slot listed
      rw [elsewhere other (by rw [slot]; decide) different]
      exact unmapped other slot
  have run : Heap.mapInitialPages platform Heap.initialPages kernelHeapStart machine = some (true, after) := by
    rw [← show kernelHeapStart + pageSize = secondPage by decide] at rerun
    rw [show Heap.initialPages = 16 + 1 by decide]
    exact Heap.mapInitialPages_succ first rerun
  refine ⟨machine, after, pages, _, booted, run, invAfter, fullAfter, nonnull, fun other same => ?_, nulls⟩
  have slot : getPageDirIndex other = 832 := (samePage_iff.mp same).1
  refine ⟨subset (.inr (mem_pageOf_iff.mpr same)), ?_⟩
  rw [kept other (by rw [slot]; decide) fun listed => (laterPages_slot listed).2 same, here other same]

theorem sixFrames_share : ∃ machine state,
    Machine.initializePaging (Stage2.machine (fun _ => 0) (framesLeft 6 (by decide))) = some machine ∧
      Reachable platform (fun _ _ => True) machine state ∧
      state.vmm.world.world.frameOf secondPage = some 0 ∧ state.vmm.world.world.frameOf thirdPage = some 0 := by
  obtain ⟨machine, mapped, pages, frame, six⟩ := sixFrames_booted
  obtain ⟨listed, found⟩ := six.firstPage kernelHeapStart rfl
  obtain ⟨heap, memory', created, world, outside⟩ :=
    PageStable.initializeKernelHeap six.run (six.inv.stable listed (by decide) found) (frameOf_mod found)
  have frames := (six.inv.write listed found outside).2
  refine ⟨machine, _, six.booted, .boot created, ?_, ?_⟩
  · rw [world, frames]
    exact (six.laterPages _ (mem_laterPages (by decide) (by decide))).2
  · rw [world, frames]
    exact (six.laterPages _ (mem_laterPages (by decide) (by decide))).2

end Kernel

end ScratchOs
