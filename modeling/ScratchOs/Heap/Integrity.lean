import ScratchOs.Heap.Runs

namespace ScratchOs.Heap

open Data

variable {τ : Type}

/-! Whether clients can reach the headers.

The size of the initial block counts its own header, so the block ends 16 bytes
behind `end_of_heap` as soon as the heap exists. The next block that
`request_space` adds puts its header there.
-/

/-- No byte a client owns is part of a header, and the list ends inside the heap. -/
def Integrity (heap : Heap (ByteMemory × τ)) (live : List Live) : Prop :=
  ∃ blocks, BlockList heap.world.1 heap.gMemoryBase blocks ∧
    (∀ entry ∈ live, ∀ block ∈ blocks, Disjoint entry.bytes (headerSpan block)) ∧
    ∀ last, blocks.getLast? = some last →
      last.toNat + 16 + (header heap.world.1 last).size.toNat ≤ heap.endOfHeap.toNat

/-- `map_address` refuses the given page, counted from `virtualAddr`, when each
page before it took one `alloc_block` and one `map_address`. -/
def PageRefused (frames : FrameService τ) : Nat → Word → τ → Prop
  | 0, virtualAddr, state =>
      (frames.mapAddress virtualAddr (frames.allocBlock state).1 pteReadWrite
        (frames.allocBlock state).2).1 = false
  | page + 1, virtualAddr, state =>
      PageRefused frames page (virtualAddr + pageSize)
        (frames.mapAddress virtualAddr (frames.allocBlock state).1 pteReadWrite
          (frames.allocBlock state).2).2

variable {frames : FrameService τ}

theorem mapInitialPages_refused {count : Nat} {virtualAddr : Word} {world after : ByteMemory × τ}
    {mapped : Bool}
    (run : mapInitialPages (flatPlatform frames) count virtualAddr world = some (mapped, after)) :
    mapped = false ↔ ∃ page < count, PageRefused frames page virtualAddr world.2 := by
  induction count generalizing virtualAddr world with
  | zero =>
      cases run
      simp
  | succ count ih =>
      have first : (∃ page < count + 1, PageRefused frames page virtualAddr world.2) ↔
          PageRefused frames 0 virtualAddr world.2 ∨
          ∃ page < count, PageRefused frames (page + 1) virtualAddr world.2 := by
        constructor
        · rintro ⟨page, below, refused⟩
          cases page with
          | zero => exact .inl refused
          | succ page => exact .inr ⟨page, by omega, refused⟩
        · rintro (refused | ⟨page, below, refused⟩)
          · exact ⟨0, by omega, refused⟩
          · exact ⟨page + 1, by omega, refused⟩
      rw [first]
      simp only [mapInitialPages, flatPlatform, Option.bind_eq_bind, Option.bind_some] at run
      simp only [PageRefused]
      cases here : (frames.mapAddress virtualAddr (frames.allocBlock world.2).1 pteReadWrite
          (frames.allocBlock world.2).2).1 with
      | false =>
          simp only [here, Bool.false_eq_true, if_false] at run
          cases run
          simp
      | true =>
          simp only [here, if_true] at run
          have rest := ih run
          simpa using rest

/-- A heap that was never set up has no list and no pointers to hold. -/
theorem integrity_of_base_zero {heap : Heap (ByteMemory × τ)} (base : heap.gMemoryBase = 0) :
    Integrity heap [] := ⟨[], base, by simp, by simp⟩

/-- A run keeps the headers out of its clients' reach exactly when
`initialize_kernel_heap` gave up on one of its pages, so that there is no heap. -/
theorem metadata_integrity_iff (frames : FrameService τ) (start : ByteMemory × τ) :
    (∀ heap live, Reachable (flatPlatform frames) start heap live → Integrity heap live) ↔
      ∃ page < initialPages, PageRefused frames page kernelHeapStart start.2 := by
  rcases initializeKernelHeap_spec (heapAllowed_flat frames) trivial (readyPages_flat frames _ _ start) with
    ⟨after, mapping, _, gaveUp⟩ | ⟨after, heap, mapping, created, finish, inv, block, _⟩
  · refine iff_of_true ?_ ((mapInitialPages_refused mapping).mp rfl)
    intro heap live reached
    suffices absent : heap.gMemoryBase = 0 ∧ live = [] by
      rw [absent.2]
      exact integrity_of_base_zero absent.1
    induction reached with
    | boot run =>
        cases run.symm.trans gaveUp
        exact ⟨rfl, rfl⟩
    | kmalloc _ _ run ih =>
        rw [Heap.kmalloc, if_pos (.inr ih.1)] at run
        cases run
        simpa [held] using ih
    | kfree _ member _ ih => simp [ih.2] at member
  · refine iff_of_false ?_ (mt (mapInitialPages_refused mapping).mpr (by simp))
    intro integrity
    obtain ⟨blocks, listed, _, ends⟩ := integrity heap [] (.boot created)
    cases listed.unique inv.blockList
    have last := ends kernelHeapStart rfl
    rw [finish] at last
    change header heap.world.1 kernelHeapStart = _ at block
    rw [block] at last
    exact absurd last (by decide)

/-- The header of the second block lies in the bytes the first client was given. -/
theorem twoRequests_breaks_integrity : ∃ heap live,
    Reachable (flatPlatform plentiful) (fun _ => 0, ()) heap live ∧ ¬ Integrity heap live := by
  obtain ⟨⟨first, second, heap⟩, run, result⟩ := Option.map_eq_some_iff.mp twoRequests_result
  simp only [Prod.mk.injEq] at result
  obtain ⟨rfl, rfl, base, next⟩ := result
  refine ⟨heap, _, twoRequests_reachable run, ?_⟩
  rintro ⟨blocks, listed, apart, _⟩
  rw [base] at listed
  have member : (0xD0010000 : Word) ∈ blocks := by
    match blocks, listed with
    | [], empty => exact absurd (show kernelHeapStart = 0 from empty) (by decide)
    | [only], chain =>
        obtain ⟨rfl, _, terminated⟩ := chain
        exact absurd (next.symm.trans terminated) (by decide)
    | head :: follower :: rest, chain =>
        obtain ⟨rfl, _, second, _⟩ := chain
        change (header heap.world.1 kernelHeapStart).next = follower at second
        simp [← second, next]
  have owned : ((0xD0000010, 0x10000) : Live) ∈ held 0xD0010010 1 (held 0xD0000010 0x10000 []) := by decide
  have separate := Set.disjoint_left.mp (apart _ owned _ member)
  exact separate (show (0xD0010000 : Word) ∈ _ by simp only [Live.bytes, mem_span]; decide)
    (by simp only [mem_span]; decide)

end ScratchOs.Heap
