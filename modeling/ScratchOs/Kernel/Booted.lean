import ScratchOs.Kernel.Backed

namespace ScratchOs

open Data

/-! The stack right after `initialize_vmm`: which frames are left, which pages
are there and what the heap can still serve. -/

namespace Heap

variable {σ α : Type} {platform : Platform σ} {measure : σ → α}

/-- Stores through the heap's platform do not change what is measured either. -/
theorem StoresKeep.withHeap (keep : StoresKeep platform measure) :
    StoresKeep (heapPlatform platform).toPlatform fun heap => measure heap.world where
  store8 run := by
    obtain ⟨after, store, rfl⟩ := Option.map_eq_some_iff.mp (show Option.map _ _ = some _ from run)
    exact keep.store8 store
  store32 run := by
    obtain ⟨after, store, rfl⟩ := Option.map_eq_some_iff.mp (show Option.map _ _ = some _ from run)
    exact keep.store32 store

end Heap

namespace Vmm

variable {σ α : Type} {platform : HeapPlatform σ} {measure : σ → α} {world middle after : σ} {node size ptr : Word}

theorem initializeVmm_measure (keep : Heap.StoresKeep platform.toPlatform measure) {vmm : Vmm σ}
    (allocated : platform.kmalloc vmMetaSize world = some (ptr, middle))
    (run : initializeVmm platform world = some vmm) : measure vmm.world = measure middle := by
  simp only [initializeVmm, allocated, Option.bind_eq_bind, Option.bind_some] at run
  split at run
  · cases run
    rfl
  · simp only [Option.bind_eq_some_iff] at run
    obtain ⟨world1, store1, world2, store2, world3, store3, world4, store4, result⟩ := run
    cases result
    rw [keep.store32 store4, keep.store8 store3, keep.store32 store2, keep.store32 store1]

theorem splitVirtualMemoryRegion_measure (keep : Heap.StoresKeep platform.toPlatform measure)
    (kept : ∀ ptr middle, platform.kmalloc vmMetaSize world = some (ptr, middle) → measure middle = measure world)
    (run : splitVirtualMemoryRegion platform node size world = some after) : measure after = measure world := by
  rw [splitVirtualMemoryRegion, Option.bind_eq_bind, Option.bind_eq_some_iff] at run
  obtain ⟨regionSize, _, run⟩ := run
  split at run
  · cases run
    rfl
  · rw [Option.bind_eq_bind, Option.bind_eq_some_iff] at run
    obtain ⟨⟨ptr, middle⟩, allocated, run⟩ := run
    rw [← kept ptr middle allocated]
    dsimp only at run
    split at run
    · cases run
      rfl
    · simp only [Option.bind_eq_bind, Option.bind_eq_some_iff] at run
      obtain ⟨_, _, world1, store1, _, _, world2, store2, _, _, world3, store3, world4, store4, world5, store5, store6⟩ := run
      rw [keep.store32 store6, keep.store32 store5, keep.store8 store4, keep.store32 store3, keep.store32 store2,
        keep.store32 store1]

end Vmm

namespace Kernel

open Machine Heap

/-- The window of the virtual memory manager. -/
def vmmWindow : Set Word := { address | 0x400000 ≤ address.toNat ∧ address.toNat < 0xC0000000 }

/-- One free region, a heap that can serve its next node, and nothing mapped in
the manager's window. -/
structure Fresh (vmm : Vmm (Heap Machine)) (frames : Nat) : Prop where
  base : vmm.vmBase ≠ 0
  inv : Vmm.Inv view.withHeap vmm [vmm.vmBase] []
  region : Vmm.region vmm.world.world.bytes vmm.vmBase =
    { base := virtualMemoryStart, size := virtualMemoryEnd - virtualMemoryStart, next := 0, free := true }
  heap : ∃ blocks overhang, Heap.Inv view vmm.world blocks overhang [(vmm.vmBase, vmMetaSize)]
  serves : ∃ block, block ≠ 0 ∧ findFirstFreeKernelBlock platform vmMetaSize vmm.world = some block
  frames : vmm.world.world.pmm.getNumFreeBlocks = frames
  unmapped : ∀ address ∈ vmmWindow, address ∉ vmm.world.world.Mapped

variable {machine : Machine}

/-- The heap is set up outside the window of the manager. -/
theorem initializeKernelHeap_window (tables : machine.KernelTables) (enough : 18 ≤ machine.pmm.getNumFreeBlocks)
    {heap : Heap Machine} (run : Heap.initializeKernelHeap platform machine = some heap) :
    ∀ address ∈ vmmWindow, address ∉ heap.world.Mapped := by
  rintro address ⟨lower, upper⟩ there
  obtain ⟨_, mapped, _, _, created, _, _, _, same, _, elsewhere⟩ := tables.initializeKernelHeap enough
  cases run.symm.trans created
  rw [same] at there
  have found := there.2
  rw [elsewhere address] at found
  · obtain ⟨frame, found⟩ := Option.isSome_iff_exists.mp found
    have page := (tables.managed_page (.inl ⟨lower, by omega⟩) found).1
    omega
  · rw [getPageDirIndex_toNat]
    omega
  · rw [mem_span]
    omega

/-- The node of the first region is cut off the initial block. -/
theorem kmalloc_first {heap : Heap Machine} (inv : Heap.Inv view heap [kernelHeapStart] kernelHeapStart [])
    (block : header heap.world.bytes kernelHeapStart =
      { next := 0, size := initialKernelHeapSize, free := true, canary := canaryValue }) :
    ∃ middle blocks overhang, kmalloc platform vmMetaSize heap = some (0xD0000010, middle) ∧
      Heap.Inv view middle blocks overhang [(0xD0000010, vmMetaSize)] ∧
      NewPages view heap.world middle.world heap.endOfHeap.toNat middle.endOfHeap.toNat ∧
      chunksOf middle.world.bytes blocks = [⟨kernelHeapStart, 16, false⟩, ⟨0xD0000020, 0xFFE0, true⟩] ∧
      middle.world.pmm = heap.world.pmm := by
  have serves : serve vmMetaSize (chunksOf heap.world.bytes [kernelHeapStart]) =
      some (kernelHeapStart, [⟨kernelHeapStart, 16, false⟩, ⟨0xD0000020, 0xFFE0, true⟩]) := by
    rw [chunksOf_cons, chunksOf_nil, chunkAt, block]
    decide
  obtain ⟨found, _, nonnull⟩ := inv.find_of_serve serves
  obtain ⟨middle, blocks, overhang, run, invMiddle, fresh, ledgers⟩ :=
    kmalloc_of_serve heapAllowed inv (by decide) serves
  rw [show kernelHeapStart + metaBlockSize = 0xD0000010 by decide] at run invMiddle
  exact ⟨middle, blocks, overhang, run, invMiddle, fresh, congrArg Ledger.chunks ledgers,
    storesKeep_pmm.kmalloc_served found nonnull run⟩

theorem fresh_vmm (tables : machine.KernelTables) (enough : 18 ≤ machine.pmm.getNumFreeBlocks) :
    ∃ heap vmm, Heap.initializeKernelHeap platform machine = some heap ∧
      Vmm.initializeVmm (heapPlatform platform) heap = some vmm ∧
      Fresh vmm (machine.pmm.getNumFreeBlocks - 18) := by
  obtain ⟨booting, mapped, heap, mapping, created, _, _, block, same, taken, elsewhere⟩ :=
    tables.initializeKernelHeap enough
  rcases Heap.initializeKernelHeap_spec heapAllowed tables.exclusive booting with
    ⟨_, refused, _⟩ | ⟨_, _, _, again, finish, inv, _⟩
  · have contrary := mapping.symm.trans refused
    simp at contrary
  cases created.symm.trans again
  obtain ⟨middle, blocks, overhang, allocated, invMiddle, newPages, chunks, pmm⟩ := kmalloc_first inv block
  obtain ⟨_, _, _, _, _, _, keeps⟩ := @kmalloc_node _ _ view heap _ [] _ _ heapAllowed inv (by simp)
    (kmallocReady_machine vmMetaSize heap)
  obtain ⟨vmm, middle', run, allocated', written, outcome⟩ := Vmm.initializeVmm_spec keeps
  obtain ⟨base, rfl⟩ := Prod.mk.inj (Option.some.inj (allocated'.symm.trans allocated))
  rcases outcome with ⟨null, _⟩ | ⟨nonnull, vmmInv, region⟩
  · rw [base] at null
    exact absurd null (by decide)
  have owned : ∀ node ∈ [vmm.vmBase], (node, vmMetaSize) ∈ [((0xD0000010 : Word), vmMetaSize)] := by
    rw [base]
    simp
  have invAfter := heap_kept invMiddle vmmInv.sound written.toRecordsOnly owned
  refine ⟨heap, vmm, created, run, ⟨nonnull, vmmInv, region, ⟨blocks, overhang, by rw [base]; exact invAfter⟩, ?_, ?_, ?_⟩⟩
  · have globals := congrArg (fun globals => globals.2.2) written.globals
    have headers := invMiddle.headers_kept ⟨written.mapped, written.bytes, globals⟩ owned
    have kept : chunksOf vmm.world.world.bytes blocks = chunksOf middle'.world.bytes blocks := chunksOf_congr headers
    have serves : serve vmMetaSize (chunksOf vmm.world.world.bytes blocks) = some (0xD0000020,
        [⟨kernelHeapStart, 16, false⟩, ⟨0xD0000020, 16, false⟩, ⟨0xD0000040, 0xFFC0, true⟩]) := by
      rw [kept, chunks]
      decide
    exact ⟨_, by decide, (invAfter.find_of_serve serves).1⟩
  · rw [Vmm.initializeVmm_measure storesKeep_pmm.withHeap allocated run, pmm,
      storesKeep_pmm.initializeKernelHeap mapping created, taken, Nat.add_sub_cancel]
  · intro address inside there
    have before : address ∈ middle'.world.Mapped := written.same there
    have page := newPages address before (initializeKernelHeap_window tables enough created address inside)
    have bounds := inv.end_bounds
    rw [kernelHeapStart_toNat] at bounds
    have upper := inside.2
    omega

namespace Fresh

variable {vmm : Vmm (Heap Machine)} {frames : Nat}

theorem reaches (fresh : Fresh vmm frames) : ∃ region, Vmm.ReachesSplit (heapPlatform platform) 0x1000 vmm region := by
  have found : Vmm.firstFit vmm.world.world.bytes (Vmm.alignSizeToPageSize 0x1000) [vmm.vmBase] = some vmm.vmBase := by
    rw [Vmm.firstFit, List.find?_singleton, fresh.region]
    exact if_pos (by decide)
  refine (fresh.inv.reachesSplit_iff (by decide) found).mpr ?_
  change _ < (Vmm.region vmm.world.world.bytes vmm.vmBase).size
  rw [fresh.region]
  decide

/-- The node for the second part comes from the heap's free block, so cutting
the region takes no frame. -/
theorem cut_pmm (fresh : Fresh vmm frames) {node size : Word} {cut : Heap Machine}
    (run : Vmm.splitVirtualMemoryRegion (heapPlatform platform) node size vmm.world = some cut) :
    cut.world.pmm = vmm.world.world.pmm := by
  obtain ⟨block, nonnull, found⟩ := fresh.serves
  have kept : ∀ ptr middle, Heap.kmalloc platform vmMetaSize vmm.world = some (ptr, middle) →
      middle.world.pmm = vmm.world.world.pmm :=
    fun ptr middle allocated => storesKeep_pmm.kmalloc_served found nonnull allocated
  have stores : StoresKeep (heapPlatform platform).toPlatform fun heap : Heap Machine => heap.world.pmm :=
    storesKeep_pmm.withHeap
  have same := Vmm.splitVirtualMemoryRegion_measure stores kept run
  exact same

theorem linked {view : FlatView platform} (fresh : Fresh vmm frames) (consistent : Consistent view ⟨vmm, [], []⟩) :
    ∃ blocks overhang allocations nodes, Linked view ⟨vmm, [], []⟩ blocks overhang allocations nodes :=
  consistent.resolve_left fun none => fresh.base none.2.2.1

end Fresh

/-- The stack as `initialize_vmm` leaves it. -/
theorem fresh_booted {frames : Nat} (memory : ByteMemory) (pmm : Pmm)
    (reserved : ∀ block < 1024, pmm.isBlockUsed block = true) (enough : pmm.getNumFreeBlocks = frames + 22)
    (condition : Vmm (Heap Machine) → Call → Prop) (always : ∀ vmm, condition vmm .initializeVmm) :
    ∃ machine vmm, initializePaging (Stage2.machine memory pmm) = some machine ∧
      machine.KernelTables ∧ Heap.ReadyPages view Heap.initialPages kernelHeapStart machine ∧
      Reachable platform condition machine ⟨vmm, [], []⟩ ∧ Fresh vmm frames := by
  obtain ⟨machine, booted, tables, left, booting⟩ := @booted_machine memory pmm reserved (by omega)
  obtain ⟨heap, vmm, created, run, fresh⟩ := fresh_vmm tables (by omega)
  rw [show machine.pmm.getNumFreeBlocks - 18 = frames by omega] at fresh
  have start : Reachable platform condition machine ⟨⟨0, heap⟩, [], []⟩ := .boot created
  refine ⟨machine, vmm, booted, tables, booting, .call .initializeVmm start rfl (always _) ?_, fresh⟩
  simp only [Call.run, run, Option.map_some]

end Kernel

end ScratchOs
