import ScratchOs.Heap.Runs

namespace ScratchOs.Heap

open Data

/-! The heap and its window, for requests of any size.

`request_space` adds the size of a header to the request and `ksbrk` adds the
sum to `end_of_heap`, both modulo 2^32, before the bound is looked at. The
other end of the problem is the block of 16 bytes too many.
-/

section Runs

variable {σ : Type}

/-- Runs in which every request meets a condition on the heap it finds. -/
inductive ReachableUnder (platform : Platform σ) (condition : Word → Heap σ → Prop) (start : σ) :
    Heap σ → List Live → Prop
  | boot {heap} : initializeKernelHeap platform start = some heap →
      ReachableUnder platform condition start heap []
  | kmalloc {heap live after} {ptr nbytes : Word} : ReachableUnder platform condition start heap live →
      condition nbytes heap → kmalloc platform nbytes heap = some (ptr, after) →
      ReachableUnder platform condition start after (held ptr nbytes live)
  | kfree {heap live after} {ptr nbytes : Word} : ReachableUnder platform condition start heap live →
      (ptr, nbytes) ∈ live → kfree platform ptr heap = some after →
      ReachableUnder platform condition start after (dropped ptr live)

variable {platform : Platform σ}

/-- The request does not wrap. If the heap has come within a header of the end
of its window, a free block that reaches behind `end_of_heap` keeps the 16 bytes
it has too many. -/
structure RequestInWindow (view : FlatView platform) (nbytes : Word) (heap : Heap σ) : Prop where
  unwrapped : Unwrapped platform nbytes heap
  excess : ∀ block, findFirstFreeKernelBlock platform nbytes heap = some block → block ≠ 0 →
    kernelHeapEnd.toNat < heap.endOfHeap.toNat + 16 →
    heap.endOfHeap.toNat < block.toNat + 16 + (header (view.bytes heap.world) block).size.toNat →
    nbytes.toNat + 16 ≤ (header (view.bytes heap.world) block).size.toNat

/-- What a platform and its state have to offer `initialize_kernel_heap` and
the requests after it. -/
structure Prepared (view : FlatView platform) (start : σ) : Prop where
  allowed : HeapAllowed view
  sound : view.Sound start
  booting : ReadyPages view initialPages kernelHeapStart start
  ready : ∀ nbytes heap, KmallocReady view nbytes heap
  created : ∀ heap, initializeKernelHeap platform start = some heap → heap.gMemoryBase ≠ 0

variable {view : FlatView platform} {start : σ} {condition : Word → Heap σ → Prop} {heap after : Heap σ}
  {blocks blocks' : List Word} {overhang : Word} {live : List Live} {nbytes ptr : Word}

theorem Inv.end_bounds (inv : Inv view heap blocks overhang live) :
    kernelHeapStart.toNat < heap.endOfHeap.toNat ∧ heap.endOfHeap.toNat ≤ kernelHeapEnd.toNat := by
  have bounds := inv.layout.bounds inv.layout.overhang_mem
  rw [kernelHeapStart_toNat, kernelHeapEnd_toNat]
  omega

theorem Inv.base_ne_zero (inv : Inv view heap blocks overhang live) : heap.gMemoryBase ≠ 0 := by
  rw [inv.base]
  decide

theorem serve_fits {chunks : List Chunk}
    (served : serve nbytes (chunksOf (view.bytes heap.world) blocks) = some (ptr, chunks)) :
    nbytes.toNat ≤ (header (view.bytes heap.world) ptr).size.toNat := by
  obtain ⟨front, chunk, back, whole, rfl, suits, _⟩ := serve_cases served
  have listed : chunk ∈ chunksOf (view.bytes heap.world) blocks := by
    rw [whole]
    simp
  obtain ⟨block, _, rfl⟩ := List.mem_map.mp listed
  exact (suits_iff.mp suits).2

/-- One request: the heap does not shrink, and what it hands out is in the window. -/
theorem Inv.allocates_window (inv : Inv view heap blocks overhang live) (request : RequestInWindow view nbytes heap)
    (step : Allocates nbytes (ledger view heap blocks) ptr (ledger view after blocks')) :
    heap.endOfHeap.toNat ≤ after.endOfHeap.toNat ∧
      (ptr ≠ 0 → kernelHeapStart.toNat < ptr.toNat ∧ ptr.toNat + nbytes.toNat ≤ kernelHeapEnd.toNat) := by
  have bounds := inv.end_bounds
  rw [kernelHeapStart_toNat, kernelHeapEnd_toNat] at bounds ⊢
  rcases step.cases with ⟨null, same, _⟩ | ⟨_, place, pointer, served, same⟩ | ⟨_, pointer, _, _, grown, limit⟩
  · have finish : after.endOfHeap = heap.endOfHeap := congrArg Ledger.finish same
    rw [finish]
    exact ⟨Nat.le_refl _, absurd null⟩
  · have finish : after.endOfHeap = heap.endOfHeap := same
    obtain ⟨found, listed, nonnull⟩ := inv.find_of_serve served
    have fits := serve_fits served
    have lower := inv.layout.bounds listed
    have sizes := effectiveSize_le (view.bytes heap.world) overhang place
    have excess := request.excess place found nonnull
    rw [kernelHeapEnd_toNat] at excess
    have address : ptr.toNat = place.toNat + 16 := by
      rw [pointer, toNat_add_metaBlockSize (by omega)]
    rw [finish]
    omega
  · change after.endOfHeap.toNat = heap.endOfHeap.toNat + 16 + nbytes.toNat at grown
    change after.endOfHeap.toNat ≤ kernelHeapEnd.toNat at limit
    change ptr = heap.endOfHeap + metaBlockSize at pointer
    rw [kernelHeapEnd_toNat] at limit
    have address : ptr.toNat = heap.endOfHeap.toNat + 16 := by
      rw [pointer, toNat_add_metaBlockSize (by omega)]
    omega

/-- A heap that has been set up keeps its invariant as long as nothing wraps. -/
theorem ReachableUnder.inv (prepared : Prepared view start)
    (fits : ∀ nbytes heap, condition nbytes heap → Unwrapped platform nbytes heap)
    (reached : ReachableUnder platform condition start heap live) :
    ∃ blocks overhang, Inv view heap blocks overhang live := by
  induction reached with
  | boot run =>
      rcases initializeKernelHeap_spec prepared.allowed prepared.sound prepared.booting with
        ⟨_, _, _, gaveUp⟩ | ⟨_, _, _, created, _, inv, _⟩
      · exact absurd rfl (prepared.created _ gaveUp)
      · cases run.symm.trans created
        exact ⟨_, _, inv⟩
  | kmalloc _ legal run ih =>
      obtain ⟨blocks, overhang, inv⟩ := ih
      obtain ⟨ptr, after, blocks', overhang', result, invAfter, _⟩ :=
        kmalloc_spec prepared.allowed inv (fits _ _ legal inv.base_ne_zero) (prepared.ready _ _)
      cases run.symm.trans result
      exact ⟨_, _, invAfter⟩
  | kfree _ member run ih =>
      obtain ⟨blocks, overhang, inv⟩ := ih
      obtain ⟨after, blocks', overhang', result, invAfter, _⟩ := kfree_spec inv member
      cases run.symm.trans result
      exact ⟨_, _, invAfter⟩

theorem ReachableUnder.reachable
    (reached : ReachableUnder platform (fun nbytes _ => nbytes.toNat ≤ 0x10000000) start heap live) :
    Reachable platform start heap live := by
  induction reached with
  | boot run => exact .boot run
  | kmalloc _ small run ih => exact ih.kmalloc small run
  | kfree _ member run ih => exact ih.kfree member run

/-- Requests up to the size of the window never wrap. -/
theorem Reachable.unwrapped (prepared : Prepared view start) (reached : Reachable platform start heap live) :
    ReachableUnder platform (Unwrapped platform) start heap live := by
  induction reached with
  | boot run => exact .boot run
  | kmalloc _ small run ih =>
      obtain ⟨blocks, overhang, inv⟩ := ih.inv prepared fun _ _ request => request
      exact ih.kmalloc (fun _ => inv.requestFits small) run
  | kfree _ member run ih => exact ih.kfree member run

theorem Reachable.inv (prepared : Prepared view start) (reached : Reachable platform start heap live) :
    ∃ blocks overhang, Inv view heap blocks overhang live :=
  (reached.unwrapped prepared).inv prepared fun _ _ request => request

/-- Both walks come to an end, on a chain of growing addresses. -/
theorem Inv.walks_end (inv : Inv view heap blocks overhang live) :
    blocks.Pairwise (fun left right => left.toNat < right.toNat) ∧
      (∀ nbytes, (findFirstFreeKernelBlock platform nbytes heap).isSome = true) ∧
      (getLastKernelBlock platform heap).isSome = true := by
  refine ⟨inv.layout.tiles.pairwise.imp fun ordered => by omega, fun nbytes => ?_, ?_⟩
  · rcases inv.find nbytes with ⟨found, _⟩ | ⟨_, block, _, _, found, _⟩
    · rw [found]
      rfl
    · rw [found]
      rfl
  · obtain ⟨front, last, rfl⟩ := List.eq_nil_or_concat' blocks |>.resolve_left
      (List.ne_nil_of_mem inv.layout.overhang_mem)
    have fuel := inv.layout.length_lt_walkFuel
    rw [List.length_append, List.length_singleton] at fuel
    have walked := @getLastKernelBlockFrom_eq _ _ view heap.world kernelHeapStart walkFuel front last
      inv.layout.chain (fun piece member => inv.headerMapped member) (by omega)
    rw [getLastKernelBlock, inv.base, walked]
    rfl

end Runs

/-! What the list accounts for. -/

/-- The bytes of all blocks of the list, headers included. -/
def listedBytes (memory : ByteMemory) (blocks : List Word) : Nat :=
  (blocks.map fun block => (header memory block).size.toNat + 16).sum

section Sums

variable {memory : ByteMemory} {blocks : List Word} {overhang finish : Word}

theorem listedBytes_of_not_mem (absent : overhang ∉ blocks) :
    listedBytes memory blocks = (blocks.map fun block => 16 + effectiveSize memory overhang block).sum := by
  refine congrArg List.sum (List.map_congr_left fun block member => ?_)
  have different : block ≠ overhang := fun same => absent (same ▸ member)
  rw [effectiveSize_of_ne different, Nat.add_comm]

/-- One block of the list overhangs, and by one header. -/
theorem listedBytes_of_mem (member : overhang ∈ blocks) (nodup : blocks.Nodup)
    (large : 64 < (header memory overhang).size.toNat) :
    listedBytes memory blocks = (blocks.map fun block => 16 + effectiveSize memory overhang block).sum + 16 := by
  induction blocks with
  | nil => simp at member
  | cons first rest ih =>
      obtain ⟨absent, restNodup⟩ := List.nodup_cons.mp nodup
      have unfolded : listedBytes memory (first :: rest) =
          (header memory first).size.toNat + 16 + listedBytes memory rest := rfl
      rw [unfolded, List.map_cons, List.sum_cons]
      rcases List.mem_cons.mp member with rfl | later
      · rw [listedBytes_of_not_mem absent, effectiveSize_self]
        omega
      · have different : first ≠ overhang := fun same => absent (same ▸ later)
        rw [ih later restNodup, effectiveSize_of_ne different]
        omega

theorem Layout.listedBytes_eq (layout : Layout memory finish blocks overhang) :
    kernelHeapStart.toNat + listedBytes memory blocks = finish.toNat + 16 := by
  have covered : kernelHeapStart.toNat +
      (blocks.map fun block => 16 + effectiveSize memory overhang block).sum = finish.toNat :=
    layout.tiles.sum_length
  rw [listedBytes_of_mem layout.overhang_mem layout.nodup layout.overhang_size]
  omega

end Sums

end ScratchOs.Heap
