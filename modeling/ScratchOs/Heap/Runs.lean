import ScratchOs.Heap.Spec

namespace ScratchOs.Heap

open Data

/-! Whole runs of the heap: `initialize_kernel_heap` once, then any calls of
`kmalloc` and any `kfree`s of pointers that are live. -/

section Runs

variable {σ : Type} {platform : Platform σ}

/-- A heap a run can end in, with the pointers its clients hold. Requests go up
to the size of the heap window. -/
inductive Reachable (platform : Platform σ) (start : σ) : Heap σ → List Live → Prop
  | boot {heap} : initializeKernelHeap platform start = some heap → Reachable platform start heap []
  | kmalloc {heap live after} {ptr nbytes : Word} : Reachable platform start heap live →
      nbytes.toNat ≤ 0x10000000 → kmalloc platform nbytes heap = some (ptr, after) →
      Reachable platform start after (held ptr nbytes live)
  | kfree {heap live after} {ptr nbytes : Word} : Reachable platform start heap live →
      (ptr, nbytes) ∈ live → kfree platform ptr heap = some after →
      Reachable platform start after (dropped ptr live)

/-- The list the source walks: `next` from `g_memory_base` to `NULL`. -/
def BlockList (memory : ByteMemory) (gMemoryBase : Word) (blocks : List Word) : Prop :=
  Chain 0 (fun block => (header memory block).next) gMemoryBase blocks

def Live.bytes (entry : Live) : Set Word := span entry.1.toNat entry.2.toNat

variable {view : FlatView platform} {heap : Heap σ} {blocks : List Word} {overhang : Word}
  {live : List Live}

theorem Inv.blockList (inv : Inv view heap blocks overhang live) :
    BlockList (view.bytes heap.world) heap.gMemoryBase blocks := by
  rw [inv.base]
  exact inv.layout.chain

/-- A block overhangs its successor by less than a header, so what clients
hold in two blocks never meets. -/
theorem Inv.bytes_disjoint (inv : Inv view heap blocks overhang live) {left right : Live}
    (leftMember : left ∈ live) (rightMember : right ∈ live) (different : left.1 ≠ right.1) :
    Disjoint left.bytes right.bytes := by
  obtain ⟨block, listed, pointer, _, fits⟩ := inv.owner left leftMember
  obtain ⟨other, otherListed, otherPointer, _, otherFits⟩ := inv.owner right rightMember
  have apart : block ≠ other := by
    rintro rfl
    exact different (pointer.trans otherPointer.symm)
  have order := inv.layout.apart listed otherListed apart
  have sizes := effectiveSize_le (view.bytes heap.world) overhang block
  have otherSizes := effectiveSize_le (view.bytes heap.world) overhang other
  have bounds := inv.layout.bounds listed
  have otherBounds := inv.layout.bounds otherListed
  have place : left.1.toNat = block.toNat + 16 := by
    rw [pointer, toNat_add_metaBlockSize (by omega)]
  have otherPlace : right.1.toNat = other.toNat + 16 := by
    rw [otherPointer, toNat_add_metaBlockSize (by omega)]
  rw [Set.disjoint_left]
  intro address
  simp only [Live.bytes, mem_span]
  omega

theorem Inv.pairwise_disjoint (inv : Inv view heap blocks overhang live) :
    live.Pairwise fun left right => Disjoint left.bytes right.bytes := by
  have distinct : live.Pairwise fun left right => left.1 ≠ right.1 := List.pairwise_map.mp inv.nodup
  exact distinct.imp_of_mem fun leftMember rightMember => inv.bytes_disjoint leftMember rightMember

/-- A small allocation keeps clear of the overhang, so no header reaches into it. -/
theorem Inv.small_inside (inv : Inv view heap blocks overhang live) {entry : Live} (member : entry ∈ live)
    (small : entry.2.toNat ≤ 48) : ∃ block ∈ blocks, entry.1.toNat = block.toNat + 16 ∧
      entry.2.toNat ≤ effectiveSize (view.bytes heap.world) overhang block := by
  obtain ⟨block, listed, pointer, _, fits⟩ := inv.owner entry member
  have bounds := inv.layout.bounds listed
  refine ⟨block, listed, ?_, ?_⟩
  · rw [pointer, toNat_add_metaBlockSize (by omega)]
  · by_cases last : block = overhang
    · have large := inv.layout.overhang_size
      rw [last, effectiveSize_self]
      omega
    · rw [effectiveSize_of_ne last]
      exact fits

theorem Inv.small_clear (inv : Inv view heap blocks overhang live) {entry : Live} (member : entry ∈ live)
    (small : entry.2.toNat ≤ 48) {block : Word} (listed : block ∈ blocks) :
    Disjoint entry.bytes (headerSpan block) := by
  obtain ⟨owner, ownerListed, place, fits⟩ := inv.small_inside member small
  rw [Set.disjoint_left]
  intro address
  simp only [Live.bytes, mem_span]
  by_cases same : owner = block
  · subst same
    omega
  · have order := inv.layout.apart ownerListed listed same
    omega

theorem Inv.small_mapped (inv : Inv view heap blocks overhang live) {entry : Live} (member : entry ∈ live)
    (small : entry.2.toNat ≤ 48) :
    entry.1.toNat + entry.2.toNat ≤ 2 ^ 32 ∧ entry.bytes ⊆ view.Mapped heap.world := by
  obtain ⟨owner, listed, place, fits⟩ := inv.small_inside member small
  have bounds := inv.layout.bounds listed
  refine ⟨by omega, Set.Subset.trans ?_ inv.mapped⟩
  intro address
  rw [mem_span_to]
  simp only [Live.bytes, mem_span]
  omega

/-- Writing to small allocations leaves the headers alone. -/
theorem Inv.headers_kept (inv : Inv view heap blocks overhang live) {after : σ} {records : List Word}
    (only : RecordsOnly view heap.world after records) (owned : ∀ record ∈ records, (record, (16 : Word)) ∈ live) :
    ∀ block ∈ blocks, header (view.bytes after) block = header (view.bytes heap.world) block := by
  intro block listed
  apply header_congr (inv.layout.room listed)
  intro address inside
  refine only.bytes address (inv.headerSpan_subset listed inside) fun record member touched => ?_
  have clear := inv.small_clear (owned record member) (show (16 : Word).toNat ≤ 48 by decide) listed
  exact Set.disjoint_left.mp clear touched inside

/-- Clients that write to small allocations of their own do not disturb the heap. -/
theorem Inv.of_recordsOnly (inv : Inv view heap blocks overhang live) {after : σ} {records : List Word}
    (sound : view.Sound after) (only : RecordsOnly view heap.world after records)
    (owned : ∀ record ∈ records, (record, (16 : Word)) ∈ live) :
    Inv view { heap with world := after } blocks overhang live := by
  have same := inv.headers_kept only owned
  refine ⟨sound, inv.base, inv.layout.congr ?_, inv.mapped.trans only.mapped, ?_, inv.positive, inv.nodup⟩
  · intro block listed
    rw [same block listed]
    exact ⟨rfl, rfl, rfl⟩
  · intro entry member
    obtain ⟨block, listed, pointer, used, fits⟩ := inv.owner entry member
    exact ⟨block, listed, pointer, by rw [same block listed]; exact ⟨used, fits⟩⟩

/-- A heap that was never set up, or one that satisfies the invariant. -/
def Tracked (view : FlatView platform) (heap : Heap σ) (live : List Live) : Prop :=
  (heap.gMemoryBase = 0 ∧ live = []) ∨ ∃ blocks overhang, Inv view heap blocks overhang live

/-- A request either finds a free block or does not run past the end of the
address space; a heap that was never set up refuses it anyway. -/
def Unwrapped (platform : Platform σ) (nbytes : Word) (heap : Heap σ) : Prop :=
  heap.gMemoryBase ≠ 0 → RequestFits platform nbytes heap

theorem Tracked.unwrapped (tracked : Tracked view heap live) {nbytes : Word} (small : nbytes.toNat ≤ 0x10000000) :
    Unwrapped platform nbytes heap := by
  intro created
  rcases tracked with ⟨base, _⟩ | ⟨blocks, overhang, inv⟩
  · exact absurd base created
  · exact inv.requestFits small

theorem Tracked.kmalloc (tracked : Tracked view heap live) (allowed : HeapAllowed view) {nbytes : Word}
    (fits : Unwrapped platform nbytes heap) (ready : KmallocReady view nbytes heap) :
    ∃ ptr after, Heap.kmalloc platform nbytes heap = some (ptr, after) ∧
      Tracked view after (held ptr nbytes live) := by
  rcases tracked with ⟨base, rfl⟩ | ⟨blocks, overhang, inv⟩
  · refine ⟨0, heap, ?_, .inl ⟨base, by simp [held]⟩⟩
    rw [Heap.kmalloc, if_pos (.inr base)]
  · have base : heap.gMemoryBase ≠ 0 := by
      rw [inv.base]
      decide
    obtain ⟨ptr, after, blocks', overhang', run, invAfter, _⟩ := kmalloc_spec allowed inv (fits base) ready
    exact ⟨ptr, after, run, .inr ⟨blocks', overhang', invAfter⟩⟩

theorem Tracked.kfree (tracked : Tracked view heap live) {ptr nbytes : Word} (member : (ptr, nbytes) ∈ live) :
    ∃ after, Heap.kfree platform ptr heap = some after ∧ Tracked view after (dropped ptr live) := by
  rcases tracked with ⟨_, rfl⟩ | ⟨blocks, overhang, inv⟩
  · simp at member
  · obtain ⟨after, blocks', overhang', run, invAfter, _⟩ := kfree_spec inv member
    exact ⟨after, run, .inr ⟨blocks', overhang', invAfter⟩⟩

/-- Live allocations never overlap, and each stands in a used block of the list
that is large enough. -/
theorem Tracked.allocations (tracked : Tracked view heap live) :
    live.Pairwise (fun left right => Disjoint left.bytes right.bytes) ∧
      ∃ blocks, BlockList (view.bytes heap.world) heap.gMemoryBase blocks ∧
        ∀ entry ∈ live, entry.1 - metaBlockSize ∈ blocks ∧
          (header (view.bytes heap.world) (entry.1 - metaBlockSize)).free = false ∧
          entry.2.toNat ≤ (header (view.bytes heap.world) (entry.1 - metaBlockSize)).size.toNat := by
  rcases tracked with ⟨base, rfl⟩ | ⟨blocks, overhang, inv⟩
  · exact ⟨.nil, [], base, by simp⟩
  · refine ⟨inv.pairwise_disjoint, blocks, inv.blockList, ?_⟩
    intro entry member
    obtain ⟨block, listed, pointer, used, fits⟩ := inv.owner entry member
    have same : entry.1 - metaBlockSize = block := by
      rw [pointer]
      exact BitVec.add_sub_cancel ..
    rw [same]
    exact ⟨listed, used, fits⟩

/-- `initialize_kernel_heap` leaves no heap at all or one that satisfies the invariant. -/
theorem Tracked.created {start : σ} (allowed : HeapAllowed view) (sound : view.Sound start)
    (booting : ReadyPages view initialPages kernelHeapStart start)
    (run : initializeKernelHeap platform start = some heap) : Tracked view heap [] := by
  rcases initializeKernelHeap_spec allowed sound booting with
    ⟨after, _, _, gaveUp⟩ | ⟨_, heap, _, created, _, inv, _⟩
  · cases run.symm.trans gaveUp
    exact .inl ⟨rfl, rfl⟩
  · cases run.symm.trans created
    exact .inr ⟨_, _, inv⟩

/-- A run on any platform that can be used as flat memory. -/
theorem Reachable.trackedBy {start : σ} (allowed : HeapAllowed view) (sound : view.Sound start)
    (booting : ReadyPages view initialPages kernelHeapStart start)
    (ready : ∀ nbytes heap, KmallocReady view nbytes heap) (reached : Reachable platform start heap live) :
    Tracked view heap live := by
  induction reached with
  | boot run => exact .created allowed sound booting run
  | kmalloc _ small run ih =>
      obtain ⟨ptr, after, result, tracked⟩ := ih.kmalloc allowed (ih.unwrapped small) (ready _ _)
      cases run.symm.trans result
      exact tracked
  | kfree _ member run ih =>
      obtain ⟨after, result, tracked⟩ := ih.kfree member
      cases run.symm.trans result
      exact tracked

end Runs

variable {τ : Type} (frames : FrameService τ)

theorem readyPages_flat (count : Nat) (virtualAddr : Word) (world : ByteMemory × τ) :
    ReadyPages (FlatView.flat frames) count virtualAddr world := by
  induction count generalizing virtualAddr world with
  | zero => trivial
  | succ count ih => exact ⟨trivial, fun after _ => ih ..⟩

theorem kmallocReady_flat (nbytes : Word) (heap : Heap (ByteMemory × τ)) :
    KmallocReady (FlatView.flat frames) nbytes heap :=
  kmallocReady_of_ready (fun _ _ _ _ => trivial) nbytes heap

theorem heapAllowed_flat : HeapAllowed (FlatView.flat frames) := fun _ _ _ => trivial

variable {frames} {start : ByteMemory × τ} {heap : Heap (ByteMemory × τ)} {live : List Live}

theorem Reachable.tracked (reached : Reachable (flatPlatform frames) start heap live) :
    Tracked (FlatView.flat frames) heap live :=
  reached.trackedBy (heapAllowed_flat frames) trivial (readyPages_flat frames _ _ start) (kmallocReady_flat frames)

/-- A frame service that always has a frame and maps every page. -/
def plentiful : FrameService Unit where
  allocBlock _ := (0x1000, ())
  freeBlock _ _ := ()
  mapAddress _ _ _ _ := (true, ())
  allocBlock_null _ _ := rfl

/-- A first request for the whole initial block, then a second one. -/
def twoRequests : Option (Word × Word × Heap (ByteMemory × Unit)) := do
  let heap ← initializeKernelHeap (flatPlatform plentiful) (fun _ => 0, ())
  let (first, heap) ← Heap.kmalloc (flatPlatform plentiful) 0x10000 heap
  let (second, heap) ← Heap.kmalloc (flatPlatform plentiful) 1 heap
  some (first, second, heap)

theorem twoRequests_result : (twoRequests.map fun result => (result.1, result.2.1,
    result.2.2.gMemoryBase, (header result.2.2.world.1 kernelHeapStart).next)) =
      some (0xD0000010, 0xD0010010, kernelHeapStart, 0xD0010000) := by decide +kernel

theorem twoRequests_reachable {first second : Word} {heap : Heap (ByteMemory × Unit)}
    (run : twoRequests = some (first, second, heap)) :
    Reachable (flatPlatform plentiful) (fun _ => 0, ()) heap (held second 1 (held first 0x10000 [])) := by
  simp only [twoRequests, Option.bind_eq_bind, Option.bind_eq_some_iff, Option.some.injEq,
    Prod.mk.injEq, Prod.exists] at run
  obtain ⟨heap0, boot, ptr1, heap1, alloc1, ptr2, heap2, alloc2, rfl, rfl, rfl⟩ := run
  exact ((Reachable.boot boot).kmalloc (by decide) alloc1).kmalloc (by decide) alloc2

end ScratchOs.Heap
