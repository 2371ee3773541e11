import ScratchOs.Kernel.Exclusive

namespace ScratchOs

open Data

/-! Requests that are refused: what `kmalloc` has done when it returns `NULL`. -/

namespace Heap

variable {σ : Type} {platform : Platform σ} {view : FlatView platform} {heap after : Heap σ}
  {blocks blocks' : List Word} {overhang overhang' : Word} {live live' : List Live} {nbytes : Word}

/-- The same `end_of_heap`, and the same list of blocks with the same headers. -/
def SameStructure (bytes : σ → ByteMemory) (before after : Heap σ) : Prop :=
  after.endOfHeap = before.endOfHeap ∧
    ∃ blocks, BlockList (bytes before.world) before.gMemoryBase blocks ∧
      BlockList (bytes after.world) after.gMemoryBase blocks ∧
      ∀ block ∈ blocks, header (bytes after.world) block = header (bytes before.world) block

/-- The ledger, the order of the list and the canaries make up the headers. -/
theorem Inv.sameStructure (inv : Inv view heap blocks overhang live) (invAfter : Inv view after blocks' overhang' live')
    (same : ledger view after blocks' = ledger view heap blocks) : SameStructure view.bytes heap after := by
  obtain ⟨sameChunks, sameEnd⟩ := Ledger.mk.inj same
  have places : blocks' = blocks := by
    have mapped := congrArg (List.map Chunk.place) sameChunks
    rw [chunksOf, chunksOf, List.map_map, List.map_map] at mapped
    exact (List.map_id blocks').symm.trans (mapped.trans (List.map_id blocks))
  subst places
  refine ⟨sameEnd, blocks', inv.blockList, invAfter.blockList, fun block member => ?_⟩
  have chunk : chunkAt (view.bytes after.world) block = chunkAt (view.bytes heap.world) block :=
    List.map_inj_left.mp sameChunks block member
  obtain ⟨_, size, free⟩ := Chunk.mk.inj chunk
  have canary := (invAfter.layout.canary block member).trans (inv.layout.canary block member).symm
  have next := invAfter.layout.chain.next_unique inv.layout.chain member
  exact Header.ext next size free canary

/-- Of the three outcomes of a request only a refusal returns `NULL`. -/
theorem Inv.refused (inv : Inv view heap blocks overhang live) {ledgerAfter : Ledger}
    (step : Allocates nbytes (ledger view heap blocks) 0 ledgerAfter) : ledgerAfter = ledger view heap blocks := by
  rcases step.cases with ⟨_, same, _⟩ | ⟨_, place, null, served, _⟩ | ⟨_, null, _⟩
  · exact same
  · obtain ⟨_, listed, _⟩ := inv.find_of_serve served
    exact absurd null.symm (inv.pointer_ne_zero listed)
  · exact absurd null.symm inv.placed.2

theorem Tracked.kmalloc_refused (tracked : Tracked view heap live) (allowed : HeapAllowed view)
    (fits : Unwrapped platform nbytes heap) (ready : KmallocReady view nbytes heap)
    (run : Heap.kmalloc platform nbytes heap = some (0, after)) : SameStructure view.bytes heap after := by
  rcases tracked with ⟨base, _⟩ | ⟨blocks, overhang, inv⟩
  · rw [Heap.kmalloc, if_pos (.inr base)] at run
    cases run
    exact ⟨rfl, [], base, base, by simp⟩
  · have base : heap.gMemoryBase ≠ 0 := by
      rw [inv.base]
      decide
    obtain ⟨ptr, after', blocks', overhang', result, invAfter, _, _, step⟩ :=
      kmalloc_spec allowed inv (fits base) ready
    cases run.symm.trans result
    exact inv.sameStructure invAfter (inv.refused step)

/-- A `kmalloc` that returns `NULL` leaves the block list and `end_of_heap` as
they were: on flat memory whatever the frame service answers, and on the paged
machine with any number of frames from the 22 on that the boot takes. -/
theorem kmalloc_refused_keeps :
    (∀ (τ : Type) (frames : FrameService τ) (start : ByteMemory × τ) (heap after : Heap (ByteMemory × τ))
      (live : List Live) (nbytes : Word), Reachable (flatPlatform frames) start heap live →
        nbytes.toNat < 0x10000000 → Heap.kmalloc (flatPlatform frames) nbytes heap = some (0, after) →
        SameStructure Prod.fst heap after) ∧
    (∀ (memory : ByteMemory) (pmm : Pmm), (∀ block < 1024, pmm.isBlockUsed block = true) →
      22 ≤ pmm.getNumFreeBlocks →
      ∃ machine, Machine.initializePaging (Stage2.machine memory pmm) = some machine ∧
        ∀ (heap after : Heap Machine) (live : List Live) (nbytes : Word),
          Reachable Machine.platform machine heap live → nbytes.toNat < 0x10000000 →
          Heap.kmalloc Machine.platform nbytes heap = some (0, after) → SameStructure Machine.bytes heap after) := by
  constructor
  · intro τ frames start heap after live nbytes reached small run
    have tracked := reached.tracked
    exact tracked.kmalloc_refused (heapAllowed_flat frames) (tracked.unwrapped (Nat.le_of_lt small))
      (kmallocReady_flat frames nbytes heap) run
  · intro memory pmm reserved enough
    obtain ⟨machine, booted, tables, _, booting⟩ := @Kernel.booted_machine memory pmm reserved enough
    refine ⟨machine, booted, fun heap after live nbytes reached small run => ?_⟩
    have tracked := reached.trackedBy Machine.heapAllowed tables.exclusive booting Kernel.kmallocReady_machine
    exact tracked.kmalloc_refused Machine.heapAllowed (tracked.unwrapped (Nat.le_of_lt small))
      (Kernel.kmallocReady_machine nbytes heap) run

def limited : FrameService Nat where
  allocBlock := takeFrame
  freeBlock _ left := left + 1
  mapAddress _ _ _ left := (true, left)
  allocBlock_null := takeFrame_null

/-- 20 frames: 17 for the initial heap, one for the first `ksbrk` of a larger
request, and the second one runs out after two bytes. -/
def outOfFrames : Option (Heap (ByteMemory × Nat) × Word × Heap (ByteMemory × Nat)) := do
  let heap ← initializeKernelHeap (flatPlatform limited) (fun _ => 0, 20)
  let (ptr, after) ← Heap.kmalloc (flatPlatform limited) 0x10001 heap
  some (heap, ptr, after)

theorem outOfFrames_result : (outOfFrames.map fun result => (result.1.world.2, result.2.1, result.2.2.world.2)) =
    some (3, 0, 0) := by decide +kernel

theorem kmalloc_refused_keeps_outOfFrames : ∃ heap after : Heap (ByteMemory × Nat),
    Reachable (flatPlatform limited) (fun _ => 0, 20) heap [] ∧
      Heap.kmalloc (flatPlatform limited) 0x10001 heap = some (0, after) ∧ SameStructure Prod.fst heap after := by
  obtain ⟨⟨heap, ptr, after⟩, run, result⟩ := Option.map_eq_some_iff.mp outOfFrames_result
  simp only [outOfFrames, Option.bind_eq_bind, Option.bind_eq_some_iff, Option.some.injEq, Prod.mk.injEq,
    Prod.exists] at run result
  obtain ⟨heap, boot, ptr, after, request, rfl, rfl, rfl⟩ := run
  obtain ⟨_, rfl, _⟩ := result
  have reached : Reachable (flatPlatform limited) (fun _ => 0, 20) heap [] := .boot boot
  exact ⟨heap, after, reached, request,
    kmalloc_refused_keeps.1 Nat limited _ heap after [] 0x10001 reached (by decide) request⟩

end Heap

end ScratchOs
