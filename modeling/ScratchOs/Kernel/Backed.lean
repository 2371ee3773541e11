import ScratchOs.Heap.Window
import ScratchOs.Kernel.Exclusive

namespace ScratchOs

open Data

/-! The pages behind what `kmalloc` hands out.

Both loops that map heap pages include the page of the new `end_of_heap`, so the
heap is mapped up to the end of that page. The initial block is 16 bytes too
long, and merging can move these bytes behind a page boundary. -/

namespace Machine

variable {machine after : Machine} {virtualAddr : Word}

/-- The page of the address is present, and both of its entries allow writing. -/
def Writable (machine : Machine) (virtualAddr : Word) : Prop :=
  ∃ pde pte, machine.walk virtualAddr = some (pde, pte) ∧ testFlag pde pdeReadWrite = true ∧
    testFlag pte pteReadWrite = true

/-- The pages `kmalloc.c` asks for. -/
def heapPages : Set Word := { address | 0xD0000000 ≤ address.toNat ∧ address.toNat < 0xE0001000 }

/-- Tables and pages of the heap window are entered writable only. -/
structure HeapWritable (machine : Machine) : Prop where
  tables : ∀ slot : Word, 832 ≤ slot.toNat → slot.toNat < 1023 → machine.Present slot →
    testFlag (machine.directoryEntry slot) pdeReadWrite = true
  pages : ∀ virtualAddr ∈ heapPages, ∀ pde pte, machine.walk virtualAddr = some (pde, pte) →
    testFlag pte pteReadWrite = true

theorem heapPages_subset : heapPages ⊆ managed := fun _ member => .inr member

theorem heapPages_slot (member : virtualAddr ∈ heapPages) :
    832 ≤ (getPageDirIndex virtualAddr).toNat ∧ (getPageDirIndex virtualAddr).toNat < 1023 := by
  obtain ⟨lower, upper⟩ := member
  rw [getPageDirIndex_toNat]
  omega

theorem HeapWritable.writable (writable : machine.HeapWritable) (member : virtualAddr ∈ heapPages)
    (mapped : virtualAddr ∈ machine.Mapped) : machine.Writable virtualAddr := by
  obtain ⟨frame, found⟩ := Option.isSome_iff_exists.mp mapped.2
  obtain ⟨⟨pde, pte⟩, walked, _⟩ := Option.map_eq_some_iff.mp found
  have present := present_of_frameOf found
  have slot := heapPages_slot member
  refine ⟨pde, pte, walked, ?_, writable.pages virtualAddr member pde pte walked⟩
  rw [walk_of_present present] at walked
  split at walked
  · cases walked
    exact writable.tables _ slot.1 slot.2 present
  · contradiction

theorem HeapWritable.of_sameEntries (writable : machine.HeapWritable) (same : machine.SameEntries after) :
    after.HeapWritable where
  tables slot lower upper present := by
    rw [Present, same.directory slot (by omega)] at present
    rw [same.directory slot (by omega)]
    exact writable.tables slot lower upper present
  pages virtualAddr member pde pte walked :=
    writable.pages virtualAddr member pde pte ((same.walk virtualAddr).symm.trans walked)

theorem testFlag_readWrite (entry : Word) : testFlag (setFlag entry (pdePresent ||| pdeReadWrite)) pdeReadWrite = true := by
  rw [testFlag, bne_iff_ne]
  intro clear
  have bit : (setFlag entry (pdePresent ||| pdeReadWrite) &&& pdeReadWrite).getLsbD 1 = true := by
    rw [setFlag, BitVec.getLsbD_and, BitVec.getLsbD_or, show (pdePresent ||| pdeReadWrite).getLsbD 1 = true from rfl,
      show pdeReadWrite.getLsbD 1 = true from rfl, Bool.or_true, Bool.and_true]
  rw [clear] at bit
  contradiction

/-- `map_address` with `PTE_READ_WRITE` keeps the heap writable. -/
theorem HeapWritable.mapped {frame : Word} (writable : machine.HeapWritable) (tables : machine.TablesSound)
    (inside : (getPageDirIndex virtualAddr).toNat < 1023) (new : machine.NewTable (getPageDirIndex virtualAddr)) :
    (machine.mapped virtualAddr frame pteReadWrite).HeapWritable := by
  obtain ⟨ready, tablesAfter, walks⟩ := tables.withTable inside new
  constructor
  · intro slot lower upper present
    rw [Present, mapped_directoryEntry tables inside new (by omega)] at present
    rw [mapped_directoryEntry tables inside new (by omega)]
    by_cases old : machine.Present (getPageDirIndex virtualAddr)
    · rw [withTable_of_present old] at present ⊢
      exact writable.tables slot lower upper present
    · have entry := @enterTable_directoryEntry machine.allocBlock.2 (getPageDirIndex virtualAddr) machine.allocBlock.1
        slot (by omega) (by omega) machine.pmm.allocBlock_mod (ready.absent old)
      rw [withTable_of_absent old] at present ⊢
      rw [entry] at present ⊢
      split at present
      · rename_i same
        rw [if_pos same]
        exact testFlag_readWrite _
      · rename_i different
        rw [if_neg different]
        exact writable.tables slot lower upper present
  · intro other member pde pte walked
    by_cases same : SamePage other virtualAddr
    · rw [walk_samePage same, Machine.mapped, tablesAfter.walk_setEntry_self inside ready.withTable.present,
        if_pos (testFlag_mappedEntry ..)] at walked
      cases walked
      exact testFlag_readWrite _
    · rw [samePage_iff] at same
      rw [Machine.mapped, tablesAfter.walk_setEntry_other inside ready.withTable.present
        (getPageTableIndex_lt virtualAddr) (heapPages_slot member).2 same,
        walks other (heapPages_slot member).2] at walked
      exact writable.pages other member pde pte walked

/-- The machine as flat memory, with the heap window writable. -/
def heapView : FlatView platform :=
  view.strengthen HeapWritable (fun virtualAddr flags => virtualAddr ∈ heapPages ∧ flags = pteReadWrite)
    (fun allowed => ⟨heapPages_subset allowed.1, by rw [allowed.2]; decide⟩)
    (by
      intro machine address value after exclusive writable mapped run
      obtain ⟨_, result, _, _, _, same, _⟩ := ExclusiveOn.store8 exclusive mapped value
      cases run.symm.trans result
      exact writable.of_sameEntries same)
    (by
      intro machine address value after exclusive writable room mapped run
      obtain ⟨_, result, _, _, _, same, _⟩ := ExclusiveOn.store32 exclusive room mapped value
      cases run.symm.trans result
      exact writable.of_sameEntries same)
    (by
      intro machine virtualAddr flags mapped after exclusive writable allowed nonnull run
      obtain ⟨member, rfl⟩ := allowed
      have tables := exclusive.tables.allocBlock
      have inside := (heapPages_slot member).2
      have taken : machine.allocBlock.2.HeapWritable := ⟨writable.tables, writable.pages⟩
      cases found : machine.allocBlock.2.walk virtualAddr with
      | some entries =>
          have refused := @mapAddress_of_mapped machine.allocBlock.2 virtualAddr machine.allocBlock.1 pteReadWrite
            tables inside (by rw [found]; rfl)
          cases run.symm.trans refused
          exact ⟨taken, fun _ => ⟨writable.tables, writable.pages⟩⟩
      | none =>
          have new := exclusive.newTable nonnull (getPageDirIndex virtualAddr)
          have entered := @mapAddress_of_unmapped machine.allocBlock.2 virtualAddr machine.allocBlock.1 pteReadWrite
            tables inside new found
          cases run.symm.trans entered
          exact ⟨taken.mapped tables inside new, fun refused => by contradiction⟩)

theorem heapAllowed_heapView : Heap.HeapAllowed heapView := fun _ lower upper => ⟨⟨lower, by omega⟩, rfl⟩

theorem kmallocReady_heapView (nbytes : Word) (heap : Heap Machine) : Heap.KmallocReady heapView nbytes heap :=
  Heap.kmallocReady_of_ready (fun _ _ _ nonnull => nonnull) nbytes heap

/-- Whole pages are mapped. -/
theorem mapped_samePage {other : Word} (same : SamePage other virtualAddr) (mapped : virtualAddr ∈ machine.Mapped) :
    other ∈ machine.Mapped := by
  refine ⟨managed_samePage same mapped.1, ?_⟩
  rw [frameOf, walk_samePage same]
  exact mapped.2

end Machine

namespace Heap

open Machine

/-- A free block that serves the request is not asked for bytes behind the page
of `end_of_heap`. -/
def OnMappedPages (nbytes : Word) (heap : Heap Machine) : Prop :=
  ∀ block, findFirstFreeKernelBlock platform nbytes heap = some block → block ≠ 0 →
    (block.toNat + 15 + nbytes.toNat) / 4096 ≤ heap.endOfHeap.toNat / 4096

/-- A request of the size the claim is about, served from mapped pages. -/
structure BackedRequest (nbytes : Word) (heap : Heap Machine) : Prop where
  small : nbytes.toNat < 0x10000000
  pages : OnMappedPages nbytes heap

def Backed (heap : Heap Machine) (live : List Live) : Prop :=
  ∀ entry ∈ live, 0xD0000000 ≤ entry.1.toNat ∧ entry.1.toNat + entry.2.toNat ≤ 0xE0001000 ∧
    entry.bytes ⊆ heap.world.Mapped

variable {heap after : Heap Machine} {blocks blocks' : List Word} {overhang overhang' : Word} {live : List Live}
  {nbytes ptr : Word}

theorem Backed.mono (backed : Backed heap live) (grows : heap.world.Mapped ⊆ after.world.Mapped) :
    Backed after live := fun entry member =>
  ⟨(backed entry member).1, (backed entry member).2.1, (backed entry member).2.2.trans grows⟩

theorem Inv.allocates_backed (inv : Inv heapView heap blocks overhang live)
    (invAfter : Inv heapView after blocks' overhang' (held ptr nbytes live))
    (grows : heap.world.Mapped ⊆ after.world.Mapped) (request : BackedRequest nbytes heap)
    (step : Allocates nbytes (ledger heapView heap blocks) ptr (ledger heapView after blocks')) (nonnull : ptr ≠ 0) :
    0xD0000000 ≤ ptr.toNat ∧ ptr.toNat + nbytes.toNat ≤ 0xE0001000 ∧
      Live.bytes (ptr, nbytes) ⊆ after.world.Mapped := by
  have bounds := inv.end_bounds
  rw [kernelHeapStart_toNat, kernelHeapEnd_toNat] at bounds
  rcases step.cases with ⟨null, _, _⟩ | ⟨_, place, pointer, served, _⟩ | ⟨_, pointer, _, _, grown, limit⟩
  · exact absurd null nonnull
  · obtain ⟨found, listed, placeNonnull⟩ := inv.find_of_serve served
    have pages := request.pages place found placeNonnull
    have lower := inv.layout.bounds listed
    have address : ptr.toNat = place.toNat + 16 := by
      rw [pointer, toNat_add_metaBlockSize (by omega)]
    refine ⟨by omega, by omega, fun byte inside => ?_⟩
    rw [Live.bytes, mem_span] at inside
    dsimp only at inside
    by_cases below : byte.toNat ≤ heap.endOfHeap.toNat
    · refine grows (inv.mapped ?_)
      rw [mem_span_to]
      omega
    · have same : SamePage byte heap.endOfHeap := by
        rw [SamePage]
        omega
      refine grows (mapped_samePage same (inv.mapped ?_))
      rw [mem_span_to]
      omega
  · change after.endOfHeap.toNat = heap.endOfHeap.toNat + 16 + nbytes.toNat at grown
    change after.endOfHeap.toNat ≤ kernelHeapEnd.toNat at limit
    change ptr = heap.endOfHeap + metaBlockSize at pointer
    rw [kernelHeapEnd_toNat] at limit
    have address : ptr.toNat = heap.endOfHeap.toNat + 16 := by
      rw [pointer, toNat_add_metaBlockSize (by omega)]
    refine ⟨by omega, by omega, fun byte inside => invAfter.mapped ?_⟩
    rw [Live.bytes, mem_span] at inside
    dsimp only at inside
    rw [mem_span_to]
    omega

/-- Each call keeps the heap's invariant and the pages of the live allocations. -/
theorem ReachableUnder.backed {machine : Machine} {condition : Word → Heap Machine → Prop}
    (exclusive : machine.Exclusive) (writable : machine.HeapWritable)
    (booting : ReadyPages view initialPages kernelHeapStart machine)
    (created : ∀ heap, initializeKernelHeap platform machine = some heap → heap.gMemoryBase ≠ 0)
    (backing : ∀ nbytes heap, condition nbytes heap → BackedRequest nbytes heap)
    (reached : ReachableUnder platform condition machine heap live) :
    (∃ blocks overhang, Inv heapView heap blocks overhang live) ∧ Backed heap live := by
  induction reached with
  | boot run =>
      rcases initializeKernelHeap_spec heapAllowed_heapView ⟨exclusive, writable⟩ (booting.weaken id) with
        ⟨after, _, _, gaveUp⟩ | ⟨_, heap, _, done, _, inv, _⟩
      · exact absurd rfl (created _ gaveUp)
      · cases run.symm.trans done
        exact ⟨⟨_, _, inv⟩, by simp [Backed]⟩
  | @kmalloc heap _ _ _ nbytes _ legal run ih =>
      obtain ⟨⟨blocks, overhang, inv⟩, backed⟩ := ih
      have request := backing _ _ legal
      obtain ⟨ptr, after, blocks', overhang', result, invAfter, only, _, step⟩ := kmalloc_spec heapAllowed_heapView inv
        (inv.requestFits (Nat.le_of_lt request.small)) (kmallocReady_heapView nbytes heap)
      cases run.symm.trans result
      refine ⟨⟨_, _, invAfter⟩, fun entry member => ?_⟩
      rcases mem_held.mp member with ⟨nonnull, rfl⟩ | old
      · exact inv.allocates_backed invAfter only.mapped request step nonnull
      · exact backed.mono only.mapped entry old
  | kfree _ member run ih =>
      obtain ⟨⟨blocks, overhang, inv⟩, backed⟩ := ih
      obtain ⟨after, blocks', overhang', result, invAfter, only, _⟩ := kfree_spec inv member
      cases run.symm.trans result
      exact ⟨⟨_, _, invAfter⟩, fun entry kept => backed.mono only.mapped entry (List.mem_filter.mp kept).1⟩

end Heap

namespace Machine

variable {machine : Machine} {virtualAddr : Word}

/-- With a frame for each page and one for their table, all initial pages are
mapped, and no others. -/
theorem mapInitialPages_granted {count : Nat} (exclusive : machine.Exclusive) (lower : 0xD0000000 ≤ virtualAddr.toNat)
    (upper : virtualAddr.toNat + 4096 * count ≤ 0xD0400000) (aligned : virtualAddr.toNat % 4096 = 0)
    (enough : count + (if machine.Present 832 then 0 else 1) ≤ machine.pmm.getNumFreeBlocks)
    (unmapped : ∀ other ∈ span virtualAddr.toNat (4096 * count), machine.frameOf other = none) :
    ∃ after, Heap.mapInitialPages platform count virtualAddr machine = some (true, after) ∧
      (machine.Present 832 ∨ 0 < count → machine.pmm.getNumFreeBlocks =
        after.pmm.getNumFreeBlocks + (count + if machine.Present 832 then 0 else 1)) ∧
      ∀ other : Word, (getPageDirIndex other).toNat < 1023 → other ∉ span virtualAddr.toNat (4096 * count) →
        after.frameOf other = machine.frameOf other := by
  induction count generalizing virtualAddr machine with
  | zero =>
      refine ⟨machine, rfl, fun known => ?_, fun _ _ _ => rfl⟩
      rw [if_pos (known.resolve_right (Nat.lt_irrefl 0))]
      rfl
  | succ count ih =>
      have slot : getPageDirIndex virtualAddr = 832 := heapSlot lower (by omega)
      have member : virtualAddr ∈ managed := .inr ⟨lower, by omega⟩
      have inside := managed_outside member
      have nonnull : machine.allocBlock.1 ≠ 0 :=
        Pmm.allocBlock_ne_zero exclusive.zeroUsed (Pmm.getNumFreeBlocks_pos.mp (by omega))
      have tables := exclusive.tables.allocBlock
      have new := exclusive.newTable nonnull (getPageDirIndex virtualAddr)
      have aligned' : machine.allocBlock.1.toNat % 4096 = 0 := machine.pmm.allocBlock_mod
      have keep : FlagsKeep machine.allocBlock.1 pteReadWrite := flagsKeep_of_lt aligned' (by decide)
      have entered := @mapAddress_of_unmapped machine.allocBlock.2 virtualAddr machine.allocBlock.1 pteReadWrite
        tables inside new (Option.map_eq_none_iff.mp (unmapped virtualAddr (by rw [mem_span]; omega)))
      have here : ∀ other, SamePage other virtualAddr →
          (machine.allocBlock.2.mapped virtualAddr machine.allocBlock.1 pteReadWrite).frameOf other =
            some machine.allocBlock.1 := fun other same => mapped_frameOf_self tables inside new aligned' keep same
      have elsewhere : ∀ other : Word, (getPageDirIndex other).toNat < 1023 → ¬ SamePage other virtualAddr →
          (machine.allocBlock.2.mapped virtualAddr machine.allocBlock.1 pteReadWrite).frameOf other =
            machine.frameOf other := fun other outside => mapped_frameOf_other tables inside new outside
      have left : (machine.allocBlock.2.mapped virtualAddr machine.allocBlock.1 pteReadWrite).pmm.getNumFreeBlocks =
          machine.pmm.getNumFreeBlocks - 1 - if machine.Present 832 then 0 else 1 := by
        have first : machine.allocBlock.2.pmm.getNumFreeBlocks = machine.pmm.getNumFreeBlocks - 1 :=
          Pmm.getNumFreeBlocks_allocBlock
        change (machine.allocBlock.2.withTable (getPageDirIndex virtualAddr)).pmm.getNumFreeBlocks = _
        rw [getNumFreeBlocks_withTable, slot, first]
        rfl
      have exclusiveAfter := exclusive.mapped member (show pteReadWrite.toNat < 4096 by decide) nonnull
      have presentAfter := present_of_frameOf (here virtualAddr rfl)
      rw [slot] at presentAfter
      have next := @toNat_add_pageSize virtualAddr (by omega)
      have remaining : (virtualAddr + pageSize).toNat + 4096 * count ≤ 0xD0400000 := by
        rw [next, Nat.add_assoc, Nat.add_comm 4096, ← Nat.mul_succ]
        exact upper
      have apart : ∀ other : Word, other ∈ span (virtualAddr + pageSize).toNat (4096 * count) →
          other ∈ span virtualAddr.toNat (4096 * (count + 1)) ∧ ¬ SamePage other virtualAddr ∧
            (getPageDirIndex other).toNat < 1023 := by
        intro other listed
        rw [next] at listed
        refine ⟨(mem_span_pages_succ aligned).mpr (.inr listed), not_samePage_of_behind listed, ?_⟩
        rw [mem_span] at listed
        rw [getPageDirIndex_toNat]
        omega
      generalize machine.allocBlock.2.mapped virtualAddr machine.allocBlock.1 pteReadWrite = middle at *
      obtain ⟨after, rerun, free, kept⟩ := ih exclusiveAfter (Nat.le_trans lower (Nat.le.intro next.symm)) remaining
        (by rw [next]; omega) (by rw [if_pos presentAfter]; omega) fun other listed => by
          obtain ⟨old, different, outside⟩ := apart other listed
          rw [elsewhere other outside different, unmapped other old]
      have taken := free (.inl presentAfter)
      rw [if_pos presentAfter] at taken
      refine ⟨after, Heap.mapInitialPages_succ entered rerun, fun _ => by omega, fun other outside unlisted => ?_⟩
      have different : ¬ SamePage other virtualAddr := fun same =>
        unlisted ((mem_span_pages_succ aligned).mpr (.inl same))
      rw [kept other outside fun later => unlisted (apart other later).1, elsewhere other outside different]

theorem KernelTables.heap_absent (kernel : machine.KernelTables) {slot : Word} (lower : 832 ≤ slot.toNat)
    (upper : slot.toNat < 1023) : ¬ machine.Present slot := by
  obtain ⟨_, _, three⟩ := kernel.slots
  have zero := three.others slot (by omega) (fun same => by simp [same] at lower)
    (fun same => by simp [same] at lower) (fun same => by simp [same] at upper)
  rw [Present, zero, testFlag_zero]
  simp

theorem KernelTables.heap_unmapped (kernel : machine.KernelTables) (member : virtualAddr ∈ heapPages) :
    machine.walk virtualAddr = none := by
  have slot := heapPages_slot member
  exact walk_of_absent (kernel.heap_absent slot.1 slot.2)

theorem KernelTables.heapWritable (kernel : machine.KernelTables) : machine.HeapWritable where
  tables _ lower upper present := absurd present (kernel.heap_absent lower upper)
  pages virtualAddr member pde pte walked := by
    rw [kernel.heap_unmapped member] at walked
    contradiction

/-- `initialize_kernel_heap` with enough frames for its pages and their table. -/
theorem KernelTables.initializeKernelHeap (kernel : machine.KernelTables) (enough : 18 ≤ machine.pmm.getNumFreeBlocks) :
    Heap.ReadyPages view Heap.initialPages kernelHeapStart machine ∧
    ∃ mapped heap, Heap.mapInitialPages platform Heap.initialPages kernelHeapStart machine = some (true, mapped) ∧
      Heap.initializeKernelHeap platform machine = some heap ∧
      heap.endOfHeap = kernelHeapStart + initialKernelHeapSize ∧
      Heap.Inv heapView heap [kernelHeapStart] kernelHeapStart [] ∧
      Heap.header heap.world.bytes kernelHeapStart =
        { next := 0, size := initialKernelHeapSize, free := true, canary := canaryValue } ∧
      heap.world.Mapped = mapped.Mapped ∧ machine.pmm.getNumFreeBlocks = mapped.pmm.getNumFreeBlocks + 18 ∧
      ∀ other : Word, (getPageDirIndex other).toNat < 1023 → other ∉ span 0xD0000000 0x11000 →
        mapped.frameOf other = machine.frameOf other := by
  have exclusive := kernel.exclusive
  have absent := kernel.heap_absent (show 832 ≤ (832 : Word).toNat by decide) (by decide)
  have frames : Heap.initialPages + (if machine.Present 832 then 0 else 1) ≤ machine.pmm.getNumFreeBlocks := by
    rw [if_neg absent]
    exact enough
  have ready := @readyPages machine kernelHeapStart Heap.initialPages exclusive (by decide) (by decide) frames
  obtain ⟨mapped, mapping, free, kept⟩ := @mapInitialPages_granted machine kernelHeapStart Heap.initialPages exclusive
    (by decide) (by decide) (by decide) frames fun other listed => by
      rw [mem_span, Heap.kernelHeapStart_toNat, show 4096 * Heap.initialPages = 0x11000 from rfl] at listed
      rw [frameOf, kernel.heap_unmapped ⟨listed.1, by omega⟩]
      rfl
  have taken := free (.inr (by decide))
  rw [if_neg absent] at taken
  refine ⟨ready, ?_⟩
  rcases Heap.initializeKernelHeap_spec heapAllowed_heapView ⟨exclusive, kernel.heapWritable⟩
    (ready.weaken id) with ⟨after, refused, _⟩ | ⟨after, heap, granted, created, finish, inv, block, same⟩
  · have contrary := mapping.symm.trans refused
    simp at contrary
  · cases mapping.symm.trans granted
    exact ⟨mapped, heap, mapping, created, finish, inv, block, same, taken, kept⟩

end Machine

namespace Kernel

open Machine Heap

/-- While free blocks are used within the pages up to `end_of_heap`, every byte
handed out lies on a page that is present and writable, whatever runs out later. -/
theorem allocations_mapped (memory : ByteMemory) (pmm : Pmm) (reserved : ∀ block < 1024, pmm.isBlockUsed block = true)
    (enough : 22 ≤ pmm.getNumFreeBlocks) :
    ∃ machine created, Machine.initializePaging (Stage2.machine memory pmm) = some machine ∧
      Heap.initializeKernelHeap platform machine = some created ∧ created.gMemoryBase ≠ 0 ∧
      ∀ heap live, Heap.ReachableUnder platform BackedRequest machine heap live →
        (∀ entry ∈ live, ∀ offset < entry.2.toNat,
          heap.world.Writable (entry.1 + BitVec.ofNat 32 offset)) ∧
        (∀ nbytes, BackedRequest nbytes heap → (Heap.kmalloc platform nbytes heap).isSome = true) ∧
        ∀ entry ∈ live, (Heap.kfree platform entry.1 heap).isSome = true := by
  obtain ⟨machine, booted, _, kernel⟩ := @Machine.initializePaging_spec memory pmm reserved (by omega)
  obtain ⟨tables, free⟩ := kernel (by omega)
  obtain ⟨booting, mapped, created, _, run, _, invCreated, _⟩ := tables.initializeKernelHeap (by omega)
  have base : created.gMemoryBase ≠ 0 := by
    rw [invCreated.base]
    decide
  refine ⟨machine, created, booted, run, base, fun heap live reached => ?_⟩
  obtain ⟨⟨blocks, overhang, inv⟩, backed⟩ := reached.backed tables.exclusive tables.heapWritable booting
    (fun heap again => by cases run.symm.trans again; exact base) fun _ _ request => request
  refine ⟨fun entry member offset inside => ?_, fun nbytes request => ?_, fun entry member => ?_⟩
  · obtain ⟨lower, upper, bytes⟩ := backed entry member
    have place : (entry.1 + BitVec.ofNat 32 offset).toNat = entry.1.toNat + offset := by
      rw [BitVec.toNat_add, BitVec.toNat_ofNat]
      omega
    refine inv.sound.2.writable ⟨by omega, by omega⟩ (bytes ?_)
    rw [Live.bytes, mem_span, place]
    omega
  · obtain ⟨_, _, _, _, result, _⟩ := kmalloc_spec heapAllowed_heapView inv
      (inv.requestFits (Nat.le_of_lt request.small)) (kmallocReady_heapView nbytes heap)
    rw [result]
    rfl
  · obtain ⟨_, _, _, result, _⟩ := kfree_spec inv (show (entry.1, entry.2) ∈ live from member)
    rw [result]
    rfl

end Kernel

/-! What is not a frame call leaves the bitmap alone. -/

namespace Heap

variable {σ α : Type} {platform : Platform σ} {measure : σ → α} {world after : σ} {block nbytes ptr : Word}

/-- Stores do not change what is measured. -/
structure StoresKeep (platform : Platform σ) (measure : σ → α) : Prop where
  store8 : ∀ {address value world after}, platform.store8 address value world = some after →
    measure after = measure world
  store32 : ∀ {address value world after}, platform.store32 address value world = some after →
    measure after = measure world

theorem StoresKeep.splitBlock (keep : StoresKeep platform measure)
    (run : splitBlock platform block nbytes world = some after) : measure after = measure world := by
  simp only [Heap.splitBlock, Option.bind_eq_bind, Option.bind_eq_some_iff] at run
  obtain ⟨_, _, world1, store1, _, _, world2, store2, _, _, world3, store3, world4, store4, world5, store5, store6⟩ := run
  rw [keep.store32 store6, keep.store32 store5, keep.store32 store4, keep.store32 store3, keep.store8 store2,
    keep.store32 store1]

theorem StoresKeep.kmalloc_served (keep : StoresKeep platform measure) {heap after : Heap σ}
    (found : findFirstFreeKernelBlock platform nbytes heap = some block) (nonnull : block ≠ 0)
    (run : kmalloc platform nbytes heap = some (ptr, after)) : measure after.world = measure heap.world := by
  unfold kmalloc at run
  split at run
  · cases run
    rfl
  · simp only [found, nonnull, Option.bind_eq_bind, Option.bind_some, if_false, Option.bind_eq_some_iff] at run
    obtain ⟨size, _, run⟩ := run
    split at run
    · simp only [Option.bind_eq_some_iff] at run
      obtain ⟨world, cut, after, store, result⟩ := run
      cases result
      rw [keep.store8 store, keep.splitBlock cut]
    · obtain ⟨after, store, result⟩ := Option.bind_eq_some_iff.mp run
      cases result
      exact keep.store8 store

theorem StoresKeep.kmalloc_extended (keep : StoresKeep platform measure) {heap middle after : Heap σ}
    (missing : findFirstFreeKernelBlock platform nbytes heap = some 0)
    (request : requestSpace platform nbytes heap = some (block, middle))
    (same : measure middle.world = measure heap.world)
    (run : kmalloc platform nbytes heap = some (ptr, after)) : measure after.world = measure heap.world := by
  unfold kmalloc at run
  split at run
  · cases run
    rfl
  · simp only [missing, request, Option.bind_eq_bind, Option.bind_some, if_true] at run
    split at run
    · cases run
      exact same
    · simp only [Option.bind_eq_some_iff] at run
      obtain ⟨_, _, linked, store1, after, store2, result⟩ := run
      cases result
      rw [keep.store8 store2, keep.store32 store1, same]

theorem StoresKeep.kfree (keep : StoresKeep platform measure) {heap after : Heap σ}
    (run : kfree platform ptr heap = some after) : measure after.world = measure heap.world := by
  unfold Heap.kfree at run
  split at run
  · cases run
    rfl
  · rw [Option.bind_eq_bind, Option.bind_eq_some_iff] at run
    obtain ⟨canary, _, run⟩ := run
    split at run
    · contradiction
    · rw [Option.bind_eq_bind, Option.bind_eq_some_iff] at run
      obtain ⟨freed, store1, run⟩ := run
      rw [Option.bind_eq_bind, Option.bind_eq_some_iff] at run
      obtain ⟨next, _, run⟩ := run
      split at run
      · cases run
        exact keep.store8 store1
      · rw [Option.bind_eq_some_iff] at run
        obtain ⟨nextFree, _, run⟩ := run
        split at run
        · simp only [Option.bind_eq_some_iff] at run
          obtain ⟨_, _, linked, store2, _, _, _, _, merged, store3, result⟩ := run
          cases result
          rw [keep.store32 store3, keep.store32 store2, keep.store8 store1]
        · cases run
          exact keep.store8 store1

theorem StoresKeep.initializeKernelHeap (keep : StoresKeep platform measure) {mapped : σ} {heap : Heap σ}
    (mapping : mapInitialPages platform initialPages kernelHeapStart world = some (true, mapped))
    (run : initializeKernelHeap platform world = some heap) : measure heap.world = measure mapped := by
  simp only [Heap.initializeKernelHeap, mapping, Option.bind_eq_bind, Option.bind_some, if_true,
    Option.bind_eq_some_iff] at run
  obtain ⟨world1, store1, world2, store2, world3, store3, world4, store4, _, _, result⟩ := run
  cases result
  rw [keep.store32 store4, keep.store32 store3, keep.store32 store2, keep.store8 store1]

end Heap

namespace Machine

variable {machine : Machine} {virtualAddr : Word}

theorem storesKeep_pmm : Heap.StoresKeep platform Machine.pmm where
  store8 run := by
    obtain ⟨place, _, rfl⟩ := Option.map_eq_some_iff.mp (show Option.map _ _ = some _ from run)
    rfl
  store32 {address value world after} run := by
    change Machine.store32 address value world = some after at run
    simp only [Machine.store32, Option.bind_eq_bind, Option.bind_eq_some_iff] at run
    obtain ⟨_, _, _, _, _, _, _, _, result⟩ := run
    cases result
    rfl

/-- Where everything is mapped already, the frames come and go. -/
theorem mapHeapBytes_of_mapped {count : Nat} (exclusive : machine.Exclusive) (free : machine.FrameFree)
    (lower : 0xD0000000 ≤ virtualAddr.toNat) (upper : virtualAddr.toNat + count ≤ 0xE0001000)
    (mapped : span virtualAddr.toNat count ⊆ machine.Mapped) :
    Heap.mapHeapBytes platform count virtualAddr machine = some (true, machine) := by
  induction count generalizing virtualAddr with
  | zero => rfl
  | succ count ih =>
      have nonnull : machine.allocBlock.1 ≠ 0 := Pmm.allocBlock_ne_zero exclusive.zeroUsed free
      have here : virtualAddr ∈ machine.Mapped := mapped (by rw [mem_span]; omega)
      have present : (machine.allocBlock.2.walk virtualAddr).isSome = true := by
        have found := here.2
        rw [frameOf, Option.isSome_map] at found
        exact found
      have refused := @mapAddress_of_mapped machine.allocBlock.2 virtualAddr machine.allocBlock.1 pteReadWrite
        exclusive.tables.allocBlock (managed_outside here.1) present
      have next : (virtualAddr + 1).toNat = virtualAddr.toNat + 1 := by bv_omega
      have rest := @ih (virtualAddr + 1) (by omega) (by omega) fun address inside => mapped (by
        rw [next, mem_span] at inside
        rw [mem_span]
        omega)
      have given : freeBlock machine.allocBlock.1 machine.allocBlock.2 = machine :=
        congrArg (fun pmm => ({ machine with pmm := pmm } : Machine)) (Pmm.freeBlock_allocBlock_self nonnull)
      rw [Heap.mapHeapBytes] at rest
      rw [Heap.mapHeapBytes, mapPages]
      simp only [platform] at rest ⊢
      simp only [nonnull, refused, Option.bind_eq_bind, Option.bind_some, Bool.false_eq_true, if_false, given]
      exact rest

end Machine

namespace Heap

open Machine

section Extension

variable {heap : Heap Machine} {blocks : List Word} {overhang nbytes : Word} {live : List Live}
  (inv : Inv heapView heap blocks overhang live) (free : heap.world.FrameFree)

include inv free

theorem ksbrk_of_mapped (room : heap.endOfHeap.toNat + nbytes.toNat ≤ 0xE0000000)
    (mapped : span heap.endOfHeap.toNat (nbytes.toNat + 1) ⊆ heap.world.Mapped) :
    ksbrk platform nbytes heap = some (heap.endOfHeap, { heap with endOfHeap := heap.endOfHeap + nbytes }) := by
  have bounds := inv.end_bounds
  rw [kernelHeapStart_toNat] at bounds
  have total : (heap.endOfHeap + nbytes).toNat = heap.endOfHeap.toNat + nbytes.toNat := by bv_omega
  have within : ¬ kernelHeapEnd < heap.endOfHeap + nbytes := by
    rw [BitVec.lt_def, kernelHeapEnd_toNat]
    omega
  have steps : (heap.endOfHeap + nbytes).toNat + 1 - heap.endOfHeap.toNat = nbytes.toNat + 1 := by omega
  have loop := @mapHeapBytes_of_mapped heap.world heap.endOfHeap (nbytes.toNat + 1) inv.sound.1 free (by omega)
    (by omega) mapped
  rw [ksbrk, if_neg within]
  simp only [steps, loop, Option.bind_eq_bind, Option.bind_some, if_true]

/-- Where the pages are there already, a request that finds no free block
extends the heap and keeps the frames as they are. -/
theorem kmalloc_extends {after : Heap Machine} {ptr : Word} (positive : nbytes ≠ 0)
    (missing : findFirstFreeKernelBlock platform nbytes heap = some 0)
    (room : heap.endOfHeap.toNat + 16 + nbytes.toNat ≤ 0xE0000000)
    (mapped : span heap.endOfHeap.toNat (nbytes.toNat + 17) ⊆ heap.world.Mapped)
    (run : kmalloc platform nbytes heap = some (ptr, after)) :
    ptr ≠ 0 ∧ after.world.pmm = heap.world.pmm := by
  have bounds := inv.end_bounds
  rw [kernelHeapStart_toNat] at bounds
  have nonnull : heap.endOfHeap ≠ 0 := by
    intro null
    rw [null] at bounds
    simp at bounds
  have base : heap.gMemoryBase ≠ 0 := by
    rw [inv.base]
    decide
  have asked : (nbytes + metaBlockSize).toNat = nbytes.toNat + 16 := by
    unfold metaBlockSize
    bv_omega
  have zero := @ksbrk_of_mapped heap blocks overhang 0 live inv free (by bv_omega) (Set.Subset.trans (by
    intro address
    rw [mem_span, mem_span, show (0 : Word).toNat = 0 from rfl]
    omega) mapped)
  rw [show heap.endOfHeap + 0 = heap.endOfHeap from BitVec.add_zero _] at zero
  have sized := @ksbrk_of_mapped heap blocks overhang (nbytes + metaBlockSize) live inv free (by omega)
    (by rwa [asked])
  have request : ∀ block middle, requestSpace platform nbytes heap = some (block, middle) →
      block = heap.endOfHeap ∧ middle.world.pmm = heap.world.pmm := by
    intro block middle requested
    simp only [requestSpace, zero, sized, Option.bind_eq_bind, Option.bind_some, ne_eq, not_true_eq_false, if_false,
      nonnull, Option.bind_eq_some_iff] at requested
    obtain ⟨world1, store1, world2, store2, world3, store3, world4, store4, result⟩ := requested
    cases result
    have keep := storesKeep_pmm
    exact ⟨rfl, by rw [keep.store32 store4, keep.store8 store3, keep.store32 store2, keep.store32 store1]⟩
  have unfolded := run
  unfold kmalloc at unfolded
  rw [if_neg (not_or.mpr ⟨positive, base⟩)] at unfolded
  simp only [missing, Option.bind_eq_bind, Option.bind_some, if_true, Option.bind_eq_some_iff] at unfolded
  obtain ⟨⟨block, middle⟩, requested, unfolded⟩ := unfolded
  obtain ⟨place, same⟩ := request block middle requested
  refine ⟨?_, storesKeep_pmm.kmalloc_extended missing requested same run⟩
  rw [place, if_neg nonnull] at unfolded
  simp only [Option.bind_eq_some_iff] at unfolded
  obtain ⟨_, _, _, _, _, _, result⟩ := unfolded
  cases result
  unfold metaBlockSize
  bv_omega

end Extension

/-- A heap with a given ledger, a frame to spare and one page that is not there. -/
def Stands (heap : Heap Machine) (live : List Live) (state : Ledger) (page : Word) : Prop :=
  (∃ blocks overhang, Inv heapView heap blocks overhang live ∧ ledger heapView heap blocks = state) ∧
    heap.world.FrameFree ∧ page ∉ heap.world.Mapped

namespace Stands

variable {heap : Heap Machine} {live : List Live} {state : Ledger} {page nbytes : Word}

theorem free_of_pmm {machine after : Machine} (free : machine.FrameFree) (same : after.pmm = machine.pmm) :
    after.FrameFree := by
  rw [FrameFree, same]
  exact free

/-- A page behind `end_of_heap` stays away while the heap does not reach it. -/
theorem absent_after {after : Heap Machine} {blocks : List Word} {overhang : Word}
    (inv : Inv heapView heap blocks overhang live) (absent : page ∉ heap.world.Mapped)
    (fresh : NewPages heapView heap.world after.world heap.endOfHeap.toNat after.endOfHeap.toNat)
    (same : after.endOfHeap.toNat / 4096 = heap.endOfHeap.toNat / 4096) : page ∉ after.world.Mapped := by
  intro there
  have bounds := inv.end_bounds
  rw [kernelHeapStart_toNat] at bounds
  have place := fresh page there absent
  refine absent (mapped_samePage (show SamePage page heap.endOfHeap from ?_) (inv.mapped ?_))
  · rw [SamePage]
    omega
  · rw [mem_span_to]
    omega

theorem served (stands : Stands heap live state page) (nonzero : nbytes ≠ 0) {place : Word} {chunks : List Chunk}
    (serves : serve nbytes state.chunks = some (place, chunks)) :
    ∃ after, kmalloc platform nbytes heap = some (place + metaBlockSize, after) ∧
      Stands after ((place + metaBlockSize, nbytes) :: live) ⟨chunks, state.finish⟩ page := by
  obtain ⟨⟨blocks, overhang, inv, ledgers⟩, free, absent⟩ := stands
  rw [← ledgers] at serves ⊢
  obtain ⟨found, _, nonnull⟩ := inv.find_of_serve serves
  obtain ⟨after, blocks', overhang', run, invAfter, fresh, afterwards⟩ :=
    kmalloc_of_serve heapAllowed_heapView inv nonzero serves
  have finish : after.endOfHeap = heap.endOfHeap := congrArg Ledger.finish afterwards
  exact ⟨after, run, ⟨blocks', overhang', invAfter, afterwards⟩,
    free_of_pmm free (storesKeep_pmm.kmalloc_served found nonnull run),
    absent_after inv absent fresh (by rw [finish])⟩

/-- A request that stays on the page of `end_of_heap`. -/
theorem extended (stands : Stands heap live state page) (small : nbytes.toNat < 0x10000000) (positive : nbytes ≠ 0)
    (missing : serve nbytes state.chunks = none) {finish : Word}
    (grown : finish.toNat = state.finish.toNat + 16 + nbytes.toNat) (limit : finish.toNat ≤ 0xE0000000)
    (samePage : finish.toNat / 4096 = state.finish.toNat / 4096) :
    ∃ after, kmalloc platform nbytes heap = some (state.finish + metaBlockSize, after) ∧
      Stands after (held (state.finish + metaBlockSize) nbytes live)
        ⟨state.chunks ++ [⟨state.finish, nbytes, false⟩], finish⟩ page := by
  obtain ⟨⟨blocks, overhang, inv, ledgers⟩, free, absent⟩ := stands
  obtain ⟨ptr, after, blocks', overhang', run, invAfter, _, fresh, step⟩ := kmalloc_spec heapAllowed_heapView inv
    (inv.requestFits (Nat.le_of_lt small)) (kmallocReady_heapView nbytes heap)
  have place : heap.endOfHeap = state.finish := congrArg Ledger.finish ledgers
  have spot : heap.endOfHeap.toNat = state.finish.toNat := congrArg BitVec.toNat place
  have bounds := inv.end_bounds
  rw [kernelHeapStart_toNat] at bounds
  have unfound : findFirstFreeKernelBlock platform nbytes heap = some 0 := by
    rcases inv.find nbytes with ⟨found, _⟩ | ⟨front, block, back, rfl, _, _, suits, unfit⟩
    · exact found
    · have serves := @serve_append nbytes _ _ (chunksOf (heapView.bytes heap.world) back) unfit suits
      rw [← chunksOf_cons, ← chunksOf_append] at serves
      rw [← ledgers, ledger, serves] at missing
      contradiction
  have mapped : span heap.endOfHeap.toNat (nbytes.toNat + 17) ⊆ heap.world.Mapped := by
    intro address inside
    rw [mem_span] at inside
    refine mapped_samePage (show SamePage address heap.endOfHeap from ?_) (inv.mapped ?_)
    · rw [SamePage]
      omega
    · rw [mem_span_to]
      omega
  obtain ⟨nonnull, pmm⟩ := kmalloc_extends inv free positive unfound (by omega) mapped run
  rw [ledgers] at step
  generalize afterwards : ledger heapView after blocks' = stateAfter at step
  rcases step.cases with ⟨null, _⟩ | ⟨_, _, _, serves, _⟩ | ⟨_, pointer, _, chunks, grownAfter, _⟩
  · exact absurd null nonnull
  · rw [missing] at serves
    contradiction
  · have finishes : stateAfter.finish = finish := BitVec.eq_of_toNat_eq (grownAfter.trans grown.symm)
    have afterFinish : after.endOfHeap = finish := (congrArg Ledger.finish afterwards).trans finishes
    have freshPages := fresh.2 nonnull
    subst pointer
    refine ⟨after, run, ⟨blocks', overhang', invAfter, ?_⟩, free_of_pmm free pmm,
      absent_after inv absent freshPages (by rw [afterFinish, samePage, place])⟩
    rw [afterwards, ← finishes, ← chunks]

theorem freed (stands : Stands heap live state page) {ptr : Word} (member : (ptr, nbytes) ∈ live)
    {chunks : List Chunk} (releases : release (ptr - metaBlockSize) state.chunks = chunks) :
    ∃ after, kfree platform ptr heap = some after ∧
      Stands after (dropped ptr live) ⟨chunks, state.finish⟩ page := by
  subst releases
  obtain ⟨⟨blocks, overhang, inv, rfl⟩, free, absent⟩ := stands
  obtain ⟨after, blocks', overhang', run, invAfter, written, same⟩ := kfree_spec inv member
  exact ⟨after, run, ⟨blocks', overhang', invAfter, same⟩, free_of_pmm free (storesKeep_pmm.kfree run),
    fun there => absent (written.same there)⟩

end Stands

end Heap

namespace Kernel

open Machine Heap

/-- The kernel up to `initialize_kernel_heap`, with two frames to spare. -/
theorem bootedHeap : ∃ machine heap,
    Machine.initializePaging (Stage2.machine (fun _ => 0) (framesLeft 24 (by decide))) = some machine ∧
      Heap.initializeKernelHeap platform machine = some heap ∧
      Stands heap [] ⟨[⟨kernelHeapStart, 0x10000, true⟩], 0xD0010000⟩ 0xD0011000 := by
  have count : (framesLeft 24 (by decide)).getNumFreeBlocks = 24 := by decide +kernel
  obtain ⟨machine, booted, _, kernel⟩ := @Machine.initializePaging_spec (fun _ => 0) (framesLeft 24 (by decide))
    framesLeft_reserved (by omega)
  obtain ⟨tables, left⟩ := kernel (by omega)
  obtain ⟨_, mapped, heap, mapping, run, finish, inv, block, same, free, elsewhere⟩ := tables.initializeKernelHeap
    (by omega)
  refine ⟨machine, heap, booted, run, ⟨_, _, inv, ?_⟩, ?_, ?_⟩
  · change (⟨[⟨kernelHeapStart, (header heap.world.bytes kernelHeapStart).size,
      (header heap.world.bytes kernelHeapStart).free⟩], heap.endOfHeap⟩ : Ledger) = _
    rw [block, finish]
    rfl
  · refine Stands.free_of_pmm (Pmm.getNumFreeBlocks_pos.mp ?_) (storesKeep_pmm.initializeKernelHeap mapping run)
    omega
  · rw [same]
    intro there
    have found := there.2
    rw [elsewhere 0xD0011000 (by decide) (by rw [mem_span]; decide), frameOf,
      tables.heap_unmapped ⟨by decide, by decide⟩] at found
    simp at found

theorem allocations_mapped_wholeBlock : ∃ machine heap live,
    Machine.initializePaging (Stage2.machine (fun _ => 0) (framesLeft 24 (by decide))) = some machine ∧
      Heap.ReachableUnder platform BackedRequest machine heap live ∧ live = [(0xD0000010, 0x10000)] ∧
      heap.world.Writable (0xD0000010 + BitVec.ofNat 32 0xFFFF) := by
  obtain ⟨machine, heap0, booted, run0, stands0⟩ := bootedHeap
  have serves : serve 0x10000 [⟨kernelHeapStart, 0x10000, true⟩] = some (0xD0000000, [⟨0xD0000000, 0x10000, false⟩]) := by
    decide
  obtain ⟨heap1, run1, _⟩ := @Stands.served _ _ _ _ 0x10000 stands0 (by decide) _ _ serves
  obtain ⟨⟨blocks, overhang, inv, ledgers⟩, _⟩ := stands0
  have finish : heap0.endOfHeap = 0xD0010000 := congrArg Ledger.finish ledgers
  have chunks : chunksOf heap0.world.bytes blocks = [⟨kernelHeapStart, 0x10000, true⟩] :=
    congrArg Ledger.chunks ledgers
  have found := (inv.find_of_serve (by rw [← chunks] at serves; exact serves)).1
  have request : BackedRequest 0x10000 heap0 := by
    refine ⟨by decide, fun block listed _ => ?_⟩
    rw [found] at listed
    cases listed
    rw [finish]
    decide
  have reached0 : Heap.ReachableUnder platform BackedRequest machine heap0 [] := .boot run0
  have reached := reached0.kmalloc request run1
  obtain ⟨again, _, rebooted, _, _, runs⟩ := allocations_mapped (fun _ => 0) (framesLeft 24 (by decide))
    framesLeft_reserved (by decide +kernel)
  cases booted.symm.trans rebooted
  exact ⟨machine, heap1, _, booted, reached, by decide,
    (runs _ _ reached).1 (0xD0000010, 0x10000) (by decide) 0xFFFF (by decide)⟩

/-- A request of ordinary size, with a frame to spare. -/
def Ordinary (nbytes : Word) (heap : Heap Machine) : Prop :=
  0 < nbytes.toNat ∧ nbytes.toNat < 0x10000000 ∧ heap.world.FrameFree

/-- The whole initial block and a block that ends one byte before the end of its
page, both freed: merged they reach 15 bytes into a page that is not there. -/
theorem mergedBlock_unmapped : ∃ machine heap live,
    Machine.initializePaging (Stage2.machine (fun _ => 0) (framesLeft 24 (by decide))) = some machine ∧
      Heap.ReachableUnder platform Ordinary machine heap live ∧ heap.world.FrameFree ∧
      ((0xD0000010, 0x10FFF) : Live) ∈ live ∧ ¬ heap.world.Writable (0xD0000010 + BitVec.ofNat 32 0x10FF0) := by
  obtain ⟨machine, heap0, booted, run0, stands0⟩ := bootedHeap
  obtain ⟨heap1, run1, stands1⟩ := @Stands.served _ _ _ _ 0x10000 stands0 (by decide) 0xD0000000
    [⟨0xD0000000, 0x10000, false⟩] (by decide)
  obtain ⟨heap2, run2, stands2⟩ := @Stands.extended _ _ _ _ 4079 stands1 (by decide) (by decide) (by decide) 0xD0010FFF
    (by decide) (by decide) (by decide)
  obtain ⟨heap3, run3, stands3⟩ := @Stands.freed _ _ _ _ 4079 stands2 0xD0010010 (by decide)
    [⟨0xD0000000, 0x10000, false⟩, ⟨0xD0010000, 4079, true⟩] (by decide)
  obtain ⟨heap4, run4, stands4⟩ := @Stands.freed _ _ _ _ 0x10000 stands3 0xD0000010 (by decide)
    [⟨0xD0000000, 0x10FFF, true⟩] (by decide)
  obtain ⟨heap5, run5, stands5⟩ := @Stands.served _ _ _ _ 0x10FFF stands4 (by decide) 0xD0000000
    [⟨0xD0000000, 0x10FFF, false⟩] (by decide)
  have reached0 : Heap.ReachableUnder platform Ordinary machine heap0 [] := .boot run0
  have reached1 := reached0.kmalloc ⟨by decide, by decide, stands0.2.1⟩ run1
  have reached2 := reached1.kmalloc ⟨by decide, by decide, stands1.2.1⟩ run2
  have reached3 := @ReachableUnder.kfree _ _ _ _ _ _ _ 0xD0010010 4079 reached2 (by decide) run3
  have reached4 := @ReachableUnder.kfree _ _ _ _ _ _ _ 0xD0000010 0x10000 reached3 (by decide) run4
  refine ⟨machine, heap5, _, booted, reached4.kmalloc ⟨by decide, by decide, stands4.2.1⟩ run5, stands5.2.1,
    by decide, ?_⟩
  rintro ⟨pde, pte, walked, _⟩
  rw [show (0xD0000010 : Word) + BitVec.ofNat 32 0x10FF0 = 0xD0011000 by decide] at walked
  exact stands5.2.2 ⟨by decide, by rw [frameOf, walked]; rfl⟩

end Kernel

end ScratchOs
