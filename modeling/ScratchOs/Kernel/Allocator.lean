import ScratchOs.Heap.Coalesced
import ScratchOs.Kernel.Sketch

namespace ScratchOs

open Data

/-! The heap of the booted kernel.

`initialize_paging` takes four frames and `initialize_kernel_heap` eighteen. With
them the pages of the heap never share a frame, whatever runs out later, and the
heap is what its allocator takes it for. -/

namespace Heap

open Machine

variable {memory : ByteMemory} {pmm : Pmm}

theorem booted_prepared (reserved : ∀ block < 1024, pmm.isBlockUsed block = true)
    (enough : 22 ≤ pmm.getNumFreeBlocks) :
    ∃ machine created, initializePaging (Stage2.machine memory pmm) = some machine ∧
      initializeKernelHeap platform machine = some created ∧ Prepared view machine := by
  obtain ⟨machine, booted, tables, left, booting⟩ := @Kernel.booted_machine memory pmm reserved enough
  obtain ⟨_, mapped, created, _, run, _, inv, _⟩ := tables.initializeKernelHeap (by omega)
  refine ⟨machine, created, booted, run, heapAllowed, tables.exclusive, booting, Kernel.kmallocReady_machine, ?_⟩
  intro heap again
  cases run.symm.trans again
  exact inv.base_ne_zero

theorem framesLeft_enough : 22 ≤ (framesLeft 24 (by decide)).getNumFreeBlocks := by decide +kernel

/-- A request for the whole initial block, then one that extends the heap. -/
theorem twoBlocks_booted : ∃ machine heap heap1 heap2,
    initializePaging (Stage2.machine (fun _ => 0) (framesLeft 24 (by decide))) = some machine ∧
      initializeKernelHeap platform machine = some heap ∧ Prepared view machine ∧ heap.endOfHeap = 0xD0010000 ∧
      kmalloc platform 0x10000 heap = some (0xD0000010, heap1) ∧
      kmalloc platform 1 heap1 = some (0xD0010010, heap2) := by
  obtain ⟨machine, heap, booted, created, stands⟩ := Kernel.bootedHeap
  obtain ⟨heap1, run1, stands1⟩ := @Stands.served _ _ _ _ 0x10000 stands (by decide) 0xD0000000
    [⟨0xD0000000, 0x10000, false⟩] (by decide)
  obtain ⟨heap2, run2, _⟩ := @Stands.extended _ _ _ _ 1 stands1 (by decide) (by decide) (by decide) 0xD0010011
    (by decide) (by decide) (by decide)
  obtain ⟨⟨_, _, _, ledgers⟩, _⟩ := stands
  obtain ⟨_, _, rebooted, _, prepared⟩ := @booted_prepared (fun _ => 0) (framesLeft 24 (by decide)) framesLeft_reserved
    framesLeft_enough
  cases booted.symm.trans rebooted
  exact ⟨machine, heap, heap1, heap2, booted, created, prepared, congrArg Ledger.finish ledgers, run1, run2⟩

/-- With 22 frames at boot live allocations never overlap, each stands in a used
block of the list that is large enough, and no call of a run gets stuck. -/
theorem live_allocations_disjoint (memory : ByteMemory) (pmm : Pmm)
    (reserved : ∀ block < 1024, pmm.isBlockUsed block = true) (enough : 22 ≤ pmm.getNumFreeBlocks) :
    ∃ machine created, initializePaging (Stage2.machine memory pmm) = some machine ∧
      initializeKernelHeap platform machine = some created ∧
      ∀ heap live, Reachable platform machine heap live →
        live.Pairwise (fun left right => Disjoint left.bytes right.bytes) ∧
        (∃ blocks, BlockList heap.world.bytes heap.gMemoryBase blocks ∧
          ∀ entry ∈ live, entry.1 - metaBlockSize ∈ blocks ∧
            (header heap.world.bytes (entry.1 - metaBlockSize)).free = false ∧
            entry.2.toNat ≤ (header heap.world.bytes (entry.1 - metaBlockSize)).size.toNat) ∧
        (∀ nbytes : Word, nbytes.toNat ≤ 0x10000000 → (kmalloc platform nbytes heap).isSome = true) ∧
        (∀ entry ∈ live, (kfree platform entry.1 heap).isSome = true) := by
  obtain ⟨machine, created, booted, run, prepared⟩ := @booted_prepared memory pmm reserved enough
  refine ⟨machine, created, booted, run, fun heap live reached => ?_⟩
  obtain ⟨blocks, overhang, inv⟩ := reached.inv prepared
  have tracked : Tracked view heap live := .inr ⟨blocks, overhang, inv⟩
  obtain ⟨apart, owners⟩ := tracked.allocations
  refine ⟨apart, owners, fun nbytes small => ?_, ?_⟩
  · obtain ⟨ptr, after, result, _⟩ := tracked.kmalloc prepared.allowed (tracked.unwrapped small) (prepared.ready _ _)
    rw [result]
    rfl
  · rintro ⟨ptr, nbytes⟩ member
    obtain ⟨after, result, _⟩ := tracked.kfree member
    rw [result]
    rfl

theorem live_allocations_disjoint_twoBlocks : ∃ machine heap live,
    initializePaging (Stage2.machine (fun _ => 0) (framesLeft 24 (by decide))) = some machine ∧
      Reachable platform machine heap live ∧ live = [(0xD0010010, 1), (0xD0000010, 0x10000)] ∧
      live.Pairwise (fun left right => Disjoint left.bytes right.bytes) := by
  obtain ⟨machine, heap, heap1, heap2, booted, created, _, _, run1, run2⟩ := twoBlocks_booted
  have reached := ((Reachable.boot created).kmalloc (by decide) run1).kmalloc (by decide) run2
  obtain ⟨_, _, rebooted, _, runs⟩ := live_allocations_disjoint (fun _ => 0) (framesLeft 24 (by decide))
    framesLeft_reserved framesLeft_enough
  cases booted.symm.trans rebooted
  exact ⟨machine, heap2, _, booted, reached, by decide, (runs _ _ reached).1⟩

/-- A third allocation is cut off the header of the first free block, which the
fourth then finds again. -/
theorem sixFrames_overlap : ∃ machine heap live,
    initializePaging (Stage2.machine (fun _ => 0) (framesLeft 6 (by decide))) = some machine ∧
      Reachable platform machine heap live ∧
      live = [(0xD0001010, 0x7F0), (0xD0001810, 0x7F0), (0xD0001010, 0x7F0), (0xD0000010, 0xFF0)] ∧
      ¬ live.Pairwise fun left right => Disjoint left.bytes right.bytes := by
  have result : (sketchRun Kernel.foldShared false [.kmalloc 0xFF0, .kmalloc 0x7F0, .kmalloc 0x7F0, .kmalloc 0x7F0]).map
      Prod.snd = some [(0xD0001010, 0x7F0), (0xD0001810, 0x7F0), (0xD0001010, 0x7F0), (0xD0000010, 0xFF0)] := by
    decide +kernel
  obtain ⟨⟨heap, live⟩, run, rfl⟩ := Option.map_eq_some_iff.mp result
  obtain ⟨machine, after, _, _, booted, reached, _⟩ := Kernel.sixFrames_run (by decide) run
  refine ⟨machine, after, _, booted, reached, rfl, fun apart => ?_⟩
  have overlap := (List.pairwise_cons.mp apart).1 (0xD0001010, 0x7F0) (by simp)
  exact Set.disjoint_left.mp overlap (show (0xD0001010 : Word) ∈ _ by simp only [Live.bytes, mem_span]; decide)
    (by simp only [Live.bytes, mem_span]; decide)

/-- With 22 frames at boot no call loses or invents a byte: the blocks of the
list always have 16 bytes more than the heap. -/
theorem heap_bytes_conserved (memory : ByteMemory) (pmm : Pmm)
    (reserved : ∀ block < 1024, pmm.isBlockUsed block = true) (enough : 22 ≤ pmm.getNumFreeBlocks) :
    ∃ machine created, initializePaging (Stage2.machine memory pmm) = some machine ∧
      initializeKernelHeap platform machine = some created ∧
      ∀ heap live, Reachable platform machine heap live →
        ∃ blocks, BlockList heap.world.bytes heap.gMemoryBase blocks ∧
          (listedBytes heap.world.bytes blocks : Int) - ((heap.endOfHeap.toNat : Int) - kernelHeapStart.toNat) = 16 ∧
          ∀ block ∈ blocks, (header heap.world.bytes block).canary = canaryValue := by
  obtain ⟨machine, created, booted, run, prepared⟩ := @booted_prepared memory pmm reserved enough
  refine ⟨machine, created, booted, run, fun heap live reached => ?_⟩
  obtain ⟨blocks, overhang, inv⟩ := reached.inv prepared
  have total := inv.layout.listedBytes_eq
  refine ⟨blocks, inv.blockList, ?_, inv.layout.canary⟩
  change kernelHeapStart.toNat + listedBytes heap.world.bytes blocks = heap.endOfHeap.toNat + 16 at total
  omega

theorem heap_bytes_conserved_twoBlocks : ∃ machine heap blocks,
    initializePaging (Stage2.machine (fun _ => 0) (framesLeft 24 (by decide))) = some machine ∧
      Reachable platform machine heap [(0xD0010010, 1), (0xD0000010, 0x10000)] ∧
      BlockList heap.world.bytes heap.gMemoryBase blocks ∧
      (listedBytes heap.world.bytes blocks : Int) - ((heap.endOfHeap.toNat : Int) - kernelHeapStart.toNat) = 16 := by
  obtain ⟨machine, heap, heap1, heap2, booted, created, _, _, run1, run2⟩ := twoBlocks_booted
  have reached := ((Reachable.boot created).kmalloc (by decide) run1).kmalloc (by decide) run2
  obtain ⟨_, _, rebooted, _, runs⟩ := heap_bytes_conserved (fun _ => 0) (framesLeft 24 (by decide))
    framesLeft_reserved framesLeft_enough
  cases booted.symm.trans rebooted
  obtain ⟨blocks, listed, equal, _⟩ := runs _ _ reached
  exact ⟨machine, heap2, blocks, booted, reached, listed, equal⟩

/-- At first the list has 16 bytes more than the heap. Then the header of a fourth
block overwrites the one of the second, and the third is no longer listed. -/
theorem sixFrames_bytes_lost : ∃ machine,
    initializePaging (Stage2.machine (fun _ => 0) (framesLeft 6 (by decide))) = some machine ∧
      ¬ ∃ difference : Int, ∀ heap live, Reachable platform machine heap live →
        ∃ blocks, BlockList heap.world.bytes heap.gMemoryBase blocks ∧
          (listedBytes heap.world.bytes blocks : Int) - ((heap.endOfHeap.toNat : Int) - kernelHeapStart.toNat) =
            difference ∧
          ∀ block ∈ blocks, (header heap.world.bytes block).canary = canaryValue := by
  have first : (sketchRun Kernel.foldShared false []).map (outline Kernel.foldShared false [0xD0000000]) =
      some ⟨[], 0xD0000000, 0xD0010000, [(some 0, some 0x10000)]⟩ := by decide +kernel
  have later : (sketchRun Kernel.foldShared false [.kmalloc 0xFF0, .kmalloc 0x7F0, .kmalloc 0x7F0]).map
      (outline Kernel.foldShared false [0xD0000000, 0xD0001000]) =
      some ⟨[(0xD0001810, 0x7F0), (0xD0001010, 0x7F0), (0xD0000010, 0xFF0)], 0xD0000000, 0xD0010000,
        [(some 0xD0001000, some 0xFF0), (some 0, some 0xE000)]⟩ := by decide +kernel
  obtain ⟨⟨heap, live⟩, run, values⟩ := Option.map_eq_some_iff.mp first
  obtain ⟨⟨heap', live'⟩, run', values'⟩ := Option.map_eq_some_iff.mp later
  simp only [outline, Outline.mk.injEq, Prod.mk.injEq, List.map_cons, List.map_nil, List.cons.injEq, and_true] at values values'
  obtain ⟨rfl, base, finish, only⟩ := values
  obtain ⟨rfl, base', finish', one, two⟩ := values'
  obtain ⟨machine, start, _, _, booted, reached, baseStart, finishStart, sketched, agrees⟩ :=
    Kernel.sixFrames_run (by decide) run
  obtain ⟨again, after, _, _, rebooted, reachedAfter, baseAfter, finishAfter, sketchedAfter, agreesAfter⟩ :=
    Kernel.sixFrames_run (by decide) run'
  cases booted.symm.trans rebooted
  refine ⟨machine, booted, ?_⟩
  rintro ⟨difference, conserved⟩
  obtain ⟨next, size⟩ := sketched.header agrees (by decide) (by decide) only
  obtain ⟨nextOne, sizeOne⟩ := sketchedAfter.header agreesAfter (by decide) (by decide) one
  obtain ⟨nextTwo, sizeTwo⟩ := sketchedAfter.header agreesAfter (by decide) (by decide) two
  have listedStart : BlockList start.world.bytes start.gMemoryBase [0xD0000000] :=
    ⟨baseStart.trans base, by decide, next⟩
  have listedAfter : BlockList after.world.bytes after.gMemoryBase [0xD0000000, 0xD0001000] :=
    ⟨baseAfter.trans base', by decide, nextOne, by decide, nextTwo⟩
  obtain ⟨blocks, listed, total, _⟩ := conserved _ _ reached
  cases listed.unique listedStart
  obtain ⟨blocks, listed, totalAfter, _⟩ := conserved _ _ reachedAfter
  cases listed.unique listedAfter
  simp only [listedBytes, List.map_cons, List.map_nil, List.sum_cons, List.sum_nil, size, sizeOne, sizeTwo,
    finishStart, finishAfter, finish, finish'] at total totalAfter
  rw [← total] at totalAfter
  exact absurd totalAfter (by decide)

/-- With 22 frames at boot, and while no request wraps or uses the bytes a block
has too many, the heap stays in its window. -/
theorem heap_stays_in_window (memory : ByteMemory) (pmm : Pmm)
    (reserved : ∀ block < 1024, pmm.isBlockUsed block = true) (enough : 22 ≤ pmm.getNumFreeBlocks) :
    ∃ machine created, initializePaging (Stage2.machine memory pmm) = some machine ∧
      initializeKernelHeap platform machine = some created ∧
      ∀ heap live, ReachableUnder platform (RequestInWindow view) machine heap live →
        (kernelHeapStart.toNat < heap.endOfHeap.toNat ∧ heap.endOfHeap.toNat ≤ kernelHeapEnd.toNat) ∧
        (∀ nbytes, RequestInWindow view nbytes heap →
          ∃ ptr after, kmalloc platform nbytes heap = some (ptr, after) ∧
            heap.endOfHeap.toNat ≤ after.endOfHeap.toNat ∧
            (ptr ≠ 0 → kernelHeapStart.toNat < ptr.toNat ∧ ptr.toNat + nbytes.toNat ≤ kernelHeapEnd.toNat)) ∧
        (∀ entry ∈ live, ∃ after, kfree platform entry.1 heap = some after ∧
          heap.endOfHeap.toNat ≤ after.endOfHeap.toNat) := by
  obtain ⟨machine, created, booted, run, prepared⟩ := @booted_prepared memory pmm reserved enough
  refine ⟨machine, created, booted, run, fun heap live reached => ?_⟩
  obtain ⟨blocks, overhang, inv⟩ := reached.inv prepared fun _ _ request => request.unwrapped
  refine ⟨inv.end_bounds, fun nbytes request => ?_, ?_⟩
  · obtain ⟨ptr, after, blocks', overhang', result, _, _, _, step⟩ :=
      kmalloc_spec prepared.allowed inv (request.unwrapped inv.base_ne_zero) (prepared.ready nbytes heap)
    exact ⟨ptr, after, result, inv.allocates_window request step⟩
  · rintro ⟨ptr, nbytes⟩ member
    obtain ⟨after, blocks', overhang', result, _, _, step⟩ := kfree_spec inv member
    have finish : after.endOfHeap = heap.endOfHeap := congrArg Ledger.finish step
    exact ⟨after, result, by rw [finish]⟩

theorem heap_stays_in_window_wholeBlock : ∃ machine heap live,
    initializePaging (Stage2.machine (fun _ => 0) (framesLeft 24 (by decide))) = some machine ∧
      ReachableUnder platform (RequestInWindow view) machine heap live ∧ live = [(0xD0000010, 0x10000)] ∧
      kernelHeapStart.toNat < heap.endOfHeap.toNat ∧ heap.endOfHeap.toNat ≤ kernelHeapEnd.toNat := by
  obtain ⟨machine, heap, heap1, _, booted, created, prepared, finish, run, _⟩ := twoBlocks_booted
  obtain ⟨blocks, overhang, inv⟩ := (Reachable.boot created).inv prepared
  have request : RequestInWindow view 0x10000 heap := by
    refine ⟨fun _ => inv.requestFits (by decide), fun _ _ _ near => ?_⟩
    rw [finish] at near
    exact absurd near (by decide)
  have reached := (ReachableUnder.boot created).kmalloc request run
  obtain ⟨_, _, rebooted, _, runs⟩ := heap_stays_in_window (fun _ => 0) (framesLeft 24 (by decide))
    framesLeft_reserved framesLeft_enough
  cases booted.symm.trans rebooted
  exact ⟨machine, heap1, _, booted, reached, by decide, (runs _ _ reached).1⟩

/-- `size + META_BLOCK_SIZE` wraps to zero: the heap does not grow, and the
client is given almost the whole address space. -/
theorem hugeRequest_leaves_window : ∃ machine heap,
    initializePaging (Stage2.machine (fun _ => 0) (framesLeft 24 (by decide))) = some machine ∧
      ReachableUnder platform (fun _ _ => True) machine heap [(0xD0010010, 0xFFFFFFF0)] ∧
      ¬ (0xD0010010 : Word).toNat + (0xFFFFFFF0 : Word).toNat ≤ kernelHeapEnd.toNat := by
  have result : (sketchRun Kernel.foldWindow true [.kmalloc 0xFFFFFFF0]).map Prod.snd =
      some [(0xD0010010, 0xFFFFFFF0)] := by decide +kernel
  obtain ⟨⟨heap, live⟩, run, rfl⟩ := Option.map_eq_some_iff.mp result
  obtain ⟨machine, after, _, _, booted, reached, _⟩ := Kernel.spareFrames_run run
  exact ⟨machine, after, booted, reached, by decide⟩

/-- With 22 frames at boot the list is a finite chain of growing addresses as long
as nothing wraps, and both walks come to an end. -/
theorem block_list_finite (memory : ByteMemory) (pmm : Pmm)
    (reserved : ∀ block < 1024, pmm.isBlockUsed block = true) (enough : 22 ≤ pmm.getNumFreeBlocks) :
    ∃ machine created, initializePaging (Stage2.machine memory pmm) = some machine ∧
      initializeKernelHeap platform machine = some created ∧
      ∀ heap live, ReachableUnder platform (Unwrapped platform) machine heap live →
        (∃ blocks, BlockList heap.world.bytes heap.gMemoryBase blocks ∧
          blocks.Pairwise fun left right => left.toNat < right.toNat) ∧
        (∀ nbytes, (findFirstFreeKernelBlock platform nbytes heap).isSome = true) ∧
        (getLastKernelBlock platform heap).isSome = true := by
  obtain ⟨machine, created, booted, run, prepared⟩ := @booted_prepared memory pmm reserved enough
  refine ⟨machine, created, booted, run, fun heap live reached => ?_⟩
  obtain ⟨blocks, overhang, inv⟩ := reached.inv prepared fun _ _ request => request
  obtain ⟨ordered, found, last⟩ := inv.walks_end
  exact ⟨⟨blocks, inv.blockList, ordered⟩, found, last⟩

theorem block_list_finite_twoBlocks : ∃ machine heap live blocks,
    initializePaging (Stage2.machine (fun _ => 0) (framesLeft 24 (by decide))) = some machine ∧
      ReachableUnder platform (Unwrapped platform) machine heap live ∧
      live = [(0xD0010010, 1), (0xD0000010, 0x10000)] ∧
      BlockList heap.world.bytes heap.gMemoryBase blocks := by
  obtain ⟨machine, heap, heap1, heap2, booted, created, prepared, _, run1, run2⟩ := twoBlocks_booted
  have reached := (((Reachable.boot created).kmalloc (by decide) run1).kmalloc (by decide) run2).unwrapped prepared
  obtain ⟨_, _, rebooted, _, runs⟩ := block_list_finite (fun _ => 0) (framesLeft 24 (by decide)) framesLeft_reserved
    framesLeft_enough
  cases booted.symm.trans rebooted
  obtain ⟨⟨blocks, listed, _⟩, _⟩ := runs _ _ reached
  exact ⟨machine, heap2, _, blocks, booted, reached, by decide, listed⟩

/-- With six frames the header of a third block overwrites the one of the second,
which is then linked behind itself. With frames to spare a request that wraps to
nothing does the same: the block after it stands where its own does. -/
theorem block_list_endless :
    (∃ machine heap, initializePaging (Stage2.machine (fun _ => 0) (framesLeft 6 (by decide))) = some machine ∧
      Reachable platform machine heap [(0xD0001010, 0xFF0), (0xD0000010, 0xFF0)] ∧
      ¬ ∃ blocks, BlockList heap.world.bytes heap.gMemoryBase blocks) ∧
    (∃ machine heap, initializePaging (Stage2.machine (fun _ => 0) (framesLeft 24 (by decide))) = some machine ∧
      ReachableUnder platform (fun _ _ => True) machine heap
        [(0xD0010010, 1), (0xD0010010, 0xFFFFFFF0), (0xD0000010, 0x10000)] ∧
      ¬ ∃ blocks, BlockList heap.world.bytes heap.gMemoryBase blocks) := by
  constructor
  · have result : (sketchRun Kernel.foldShared false [.kmalloc 0xFF0, .kmalloc 0xFF0]).map
        (outline Kernel.foldShared false [0xD0000000, 0xD0001000, 0xD0002000]) =
        some ⟨[(0xD0001010, 0xFF0), (0xD0000010, 0xFF0)], 0xD0000000, 0xD0010000,
          [(some 0xD0001000, some 0xFF0), (some 0xD0002000, some 0xE000), (some 0xD0002000, some 0xE000)]⟩ := by
      decide +kernel
    obtain ⟨⟨heap, live⟩, run, values⟩ := Option.map_eq_some_iff.mp result
    simp only [outline, Outline.mk.injEq, Prod.mk.injEq, List.map_cons, List.map_nil, List.cons.injEq, and_true] at values
    obtain ⟨rfl, base, _, one, two, three⟩ := values
    obtain ⟨machine, after, _, _, booted, reached, baseAfter, _, sketched, agrees⟩ :=
      Kernel.sixFrames_run (by decide) run
    refine ⟨machine, after, booted, reached, ?_⟩
    rintro ⟨blocks, listed⟩
    rw [baseAfter, base] at listed
    obtain ⟨_, tail⟩ := listed.tail (by decide)
    rw [(sketched.header agrees (by decide) (by decide) one).1] at tail
    obtain ⟨_, tail⟩ := tail.tail (by decide)
    rw [(sketched.header agrees (by decide) (by decide) two).1] at tail
    exact tail.not_loop (by decide) (sketched.header agrees (by decide) (by decide) three).1
  · have result : (sketchRun Kernel.foldWindow true [.kmalloc 0x10000, .kmalloc 0xFFFFFFF0, .kmalloc 1]).map
        (outline Kernel.foldWindow true [0xD0000000, 0xD0010000]) =
        some ⟨[(0xD0010010, 1), (0xD0010010, 0xFFFFFFF0), (0xD0000010, 0x10000)], 0xD0000000, 0xD0010011,
          [(some 0xD0010000, some 0x10000), (some 0xD0010000, some 1)]⟩ := by decide +kernel
    obtain ⟨⟨heap, live⟩, run, values⟩ := Option.map_eq_some_iff.mp result
    simp only [outline, Outline.mk.injEq, Prod.mk.injEq, List.map_cons, List.map_nil, List.cons.injEq, and_true] at values
    obtain ⟨rfl, base, _, one, two⟩ := values
    obtain ⟨machine, after, _, _, booted, reached, baseAfter, _, sketched, agrees⟩ := Kernel.spareFrames_run run
    refine ⟨machine, after, booted, reached, ?_⟩
    rintro ⟨blocks, listed⟩
    rw [baseAfter, base] at listed
    obtain ⟨_, tail⟩ := listed.tail (by decide)
    rw [(sketched.header agrees (by decide) (by decide) one).1] at tail
    exact tail.not_loop (by decide) (sketched.header agrees (by decide) (by decide) two).1

/-- With 22 frames at boot, and as long as no block is freed behind a free one, no
two neighbours on the list are both free, and with nothing allocated the list is
one free block. The first free behind a free block breaks that. -/
theorem heap_coalesced (memory : ByteMemory) (pmm : Pmm)
    (reserved : ∀ block < 1024, pmm.isBlockUsed block = true) (enough : 22 ≤ pmm.getNumFreeBlocks) :
    ∃ machine created, initializePaging (Stage2.machine memory pmm) = some machine ∧
      initializeKernelHeap platform machine = some created ∧
      ∀ heap live, ReachableInOrder view machine heap live →
        (∃ blocks, BlockList heap.world.bytes heap.gMemoryBase blocks ∧
          Coalesced (chunksOf heap.world.bytes blocks) ∧
          (live = [] → ∃ block, blocks = [block] ∧ (header heap.world.bytes block).free = true)) ∧
        ∀ entry ∈ live, ∃ after blocks, kfree platform entry.1 heap = some after ∧
          BlockList after.world.bytes after.gMemoryBase blocks ∧
          (Coalesced (chunksOf after.world.bytes blocks) ↔
            ¬ FreeBefore heap.world.bytes heap.gMemoryBase (entry.1 - metaBlockSize)) := by
  obtain ⟨machine, created, booted, run, prepared⟩ := @booted_prepared memory pmm reserved enough
  refine ⟨machine, created, booted, run, fun heap live reached => ?_⟩
  obtain ⟨blocks, overhang, inv, coalesced, owned⟩ := reached.coalesced prepared
  refine ⟨⟨blocks, inv.blockList, coalesced, ?_⟩, ?_⟩
  · rintro rfl
    exact inv.single coalesced owned
  · rintro ⟨ptr, nbytes⟩ member
    obtain ⟨after, blocks', overhang', result, invAfter, _, stays⟩ := inv.kfree_coalesced member coalesced owned
    exact ⟨after, blocks', result, invAfter.blockList, stays⟩

theorem heap_coalesced_twoBlocks : ∃ machine heap live,
    initializePaging (Stage2.machine (fun _ => 0) (framesLeft 24 (by decide))) = some machine ∧
      ReachableInOrder view machine heap live ∧ live = [(0xD0010010, 1), (0xD0000010, 0x10000)] ∧
      ∃ blocks, BlockList heap.world.bytes heap.gMemoryBase blocks ∧ Coalesced (chunksOf heap.world.bytes blocks) := by
  obtain ⟨machine, heap, heap1, heap2, booted, created, prepared, _, run1, run2⟩ := twoBlocks_booted
  obtain ⟨_, _, inv⟩ := (Reachable.boot created).inv prepared
  obtain ⟨_, _, inv1⟩ := ((Reachable.boot created).kmalloc (by decide) run1).inv prepared
  have reached0 : ReachableInOrder view machine heap [] := .boot created
  have reached1 := reached0.kmalloc (fun _ => inv.requestFits (by decide)) run1
  have reached2 := reached1.kmalloc (fun _ => inv1.requestFits (by decide)) run2
  obtain ⟨_, _, rebooted, _, runs⟩ := heap_coalesced (fun _ => 0) (framesLeft 24 (by decide)) framesLeft_reserved
    framesLeft_enough
  cases booted.symm.trans rebooted
  obtain ⟨⟨blocks, listed, coalesced, _⟩, _⟩ := runs _ _ reached2
  exact ⟨machine, heap2, _, booted, reached2, by decide, blocks, listed, coalesced⟩

/-- Two blocks, freed in the order they were allocated: everything has been
freed, and the list is two free blocks. -/
theorem freedInOrder_fragmented : ∃ machine heap,
    initializePaging (Stage2.machine (fun _ => 0) (framesLeft 24 (by decide))) = some machine ∧
      Reachable platform machine heap [] ∧
      ∃ blocks, BlockList heap.world.bytes heap.gMemoryBase blocks ∧ blocks.length = 2 ∧
        ¬ Coalesced (chunksOf heap.world.bytes blocks) := by
  obtain ⟨machine, heap0, booted, created, stands0⟩ := Kernel.bootedHeap
  obtain ⟨heap1, run1, stands1⟩ := @Stands.served _ _ _ _ 32 stands0 (by decide) 0xD0000000
    [⟨0xD0000000, 32, false⟩, ⟨0xD0000030, 0xFFD0, true⟩] (by decide)
  obtain ⟨heap2, run2, stands2⟩ := @Stands.served _ _ _ _ 32 stands1 (by decide) 0xD0000030
    [⟨0xD0000000, 32, false⟩, ⟨0xD0000030, 32, false⟩, ⟨0xD0000060, 0xFFA0, true⟩] (by decide)
  obtain ⟨heap3, run3, stands3⟩ := @Stands.freed _ _ _ _ 32 stands2 0xD0000010 (by decide)
    [⟨0xD0000000, 32, true⟩, ⟨0xD0000030, 32, false⟩, ⟨0xD0000060, 0xFFA0, true⟩] (by decide)
  obtain ⟨heap4, run4, stands4⟩ := @Stands.freed _ _ _ _ 32 stands3 0xD0000040 (by decide)
    [⟨0xD0000000, 32, true⟩, ⟨0xD0000030, 0xFFD0, true⟩] (by decide)
  have reached2 := ((Reachable.boot created).kmalloc (by decide) run1).kmalloc (by decide) run2
  have reached3 := @Reachable.kfree _ _ _ _ _ _ 0xD0000010 32 reached2 (by decide) run3
  have reached4 := @Reachable.kfree _ _ _ _ _ _ 0xD0000040 32 reached3 (by decide) run4
  obtain ⟨⟨blocks, overhang, inv, ledgers⟩, _⟩ := stands4
  have chunks : chunksOf heap4.world.bytes blocks = [⟨0xD0000000, 32, true⟩, ⟨0xD0000030, 0xFFD0, true⟩] :=
    congrArg Ledger.chunks ledgers
  refine ⟨machine, heap4, booted, reached4, blocks, inv.blockList, ?_, fun coalesced => ?_⟩
  · have length := congrArg List.length chunks
    rwa [chunksOf, List.length_map] at length
  · rw [chunks] at coalesced
    rcases (List.isChain_cons_cons.mp coalesced).1 with used | used
    · exact Bool.false_ne_true used.symm
    · exact Bool.false_ne_true used.symm

end Heap

end ScratchOs
