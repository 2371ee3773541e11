import ScratchOs.Kernel.HeapWindow
import ScratchOs.Kernel.Release

namespace ScratchOs

open Data

/-! What a `vmm_alloc` that returns `NULL` has done.

It cuts a region before it looks for frames, and gives nothing back. The runs
here may pass any flags, also ones that reach into the address of an entry. -/

namespace Kernel

open Machine

variable {state : State Machine}

/-- The region list, the translation of every page and the used blocks are as before. -/
structure Untouched (before after : Vmm (Heap Machine)) : Prop where
  regions : ∃ nodes, Vmm.RegionList (before.world.world.bytesOn heapWindow) before.vmBase nodes ∧
    Vmm.RegionList (after.world.world.bytesOn heapWindow) after.vmBase nodes ∧
    ∀ node ∈ nodes, Vmm.region (after.world.world.bytesOn heapWindow) node =
      Vmm.region (before.world.world.bytesOn heapWindow) node
  pages : ∀ virtualAddr, after.world.world.translate virtualAddr = before.world.world.translate virtualAddr
  frames : ∀ block, after.world.world.pmm.isBlockUsed block = before.world.world.pmm.isBlockUsed block

/-- `vmm_alloc` stops before it cuts a region, or it has neither a frame nor
storage for a node. -/
def StopsEarly (size : Word) (vmm : Vmm (Heap Machine)) : Prop :=
  (∀ region, ¬ Vmm.ReachesSplit (heapPlatform platform) size vmm region) ∨
    (¬ vmm.world.world.FrameFree ∧ Heap.findFirstFreeKernelBlock platform vmMetaSize vmm.world = some 0)

theorem untouched_refl {vmm : Vmm (Heap Machine)} {nodes : List Word}
    (listed : Vmm.RegionList (vmm.world.world.bytesOn heapWindow) vmm.vmBase nodes) : Untouched vmm vmm :=
  ⟨⟨nodes, listed, listed, fun _ _ => rfl⟩, fun _ => rfl, fun _ => rfl⟩

section Attempt

variable {size flags node fresh overhang : Word} {front back blocks : List Word} {middle cut paged : Heap Machine}
  {allocations : List Heap.Live} {mapped : Bool}

theorem attempt_cut_touched
    (attempt : Vmm.Attempt (viewOn heapWindow).withHeap size flags state.vmm state.regions front node fresh back
      middle cut mapped paged)
    (listed : Vmm.RegionList (state.vmm.world.world.bytesOn heapWindow) state.vmm.vmBase (front ++ node :: back))
    (stored : fresh ≠ 0) : ¬ Untouched state.vmm { state.vmm with world := paged } := by
  intro untouched
  obtain ⟨nodes, before, after, _⟩ := untouched.regions
  have same : front ++ node :: back = nodes := listed.unique before
  have cutList : Vmm.cutNodes front node fresh back = nodes := attempt.paged_inv.layout.chain.unique after
  rw [Vmm.cutNodes, if_neg stored, ← same] at cutList
  have lengths := congrArg List.length cutList
  simp at lengths

/-- Every frame that was left is gone. -/
theorem attempt_paged_touched (inv : Heap.Inv (viewOn heapWindow) state.vmm.world blocks overhang allocations)
    (attempt : Vmm.Attempt (viewOn heapWindow).withHeap size flags state.vmm state.regions front node fresh back
      middle cut false paged)
    (free : state.vmm.world.world.FrameFree) : ¬ Untouched state.vmm { state.vmm with world := paged } := by
  intro untouched
  obtain ⟨ptr, after, _, _, allocated, _, only, _⟩ := Heap.kmalloc_spec heapAllowed_heapWindow inv
    (inv.requestFits (by decide)) (kmallocReady_machine vmMetaSize state.vmm.world)
  have run : Heap.kmalloc platform vmMetaSize state.vmm.world = some (fresh, middle) := attempt.allocated
  cases run.symm.trans allocated
  have sizes : paged.world.pmm.gBitmapSize = state.vmm.world.world.pmm.gBitmapSize := by
    have grown := congrArg (fun globals => globals.2.2) attempt.growth.globals
    have split := congrArg (fun globals => globals.2.2) attempt.only.globals
    exact (grown.trans split).trans only.globals
  have full : ¬ paged.world.FrameFree := fun left =>
    Pmm.allocBlock_ne_zero attempt.growth.sound.zeroUsed left (attempt.stopped rfl)
  obtain ⟨block, below, unused⟩ := free
  refine full ⟨block, by rwa [sizes], ?_⟩
  rw [← unused]
  exact untouched.frames block

/-- Without a frame and a node nothing has happened. -/
theorem attempt_exhausted (inv : Heap.Inv (viewOn heapWindow) state.vmm.world blocks overhang allocations)
    (vmmInv : Vmm.Inv (viewOn heapWindow).withHeap state.vmm (front ++ node :: back) state.regions)
    (attempt : Vmm.Attempt (viewOn heapWindow).withHeap size flags state.vmm state.regions front node fresh back
      middle cut mapped paged)
    (exhausted : ¬ state.vmm.world.world.FrameFree)
    (missing : Heap.findFirstFreeKernelBlock platform vmMetaSize state.vmm.world = some 0) :
    paged = state.vmm.world := by
  have null : state.vmm.world.world.allocBlock.1 = 0 := congrArg Prod.fst (allocBlock_exhausted exhausted)
  have refused := Heap.kmalloc_exhausted inv.sound null (inv.requestFits (by decide)) missing
  have run : Heap.kmalloc platform vmMetaSize state.vmm.world = some (fresh, middle) := attempt.allocated
  cases run.symm.trans refused
  have large : ¬ (Vmm.region ((viewOn heapWindow).withHeap.bytes state.vmm.world) node).size ≤
      Vmm.alignSizeToPageSize size := by
    rw [BitVec.le_def]
    exact Nat.not_le_of_lt attempt.large
  have member : node ∈ front ++ node :: back := by simp
  have whole := Vmm.splitVirtualMemoryRegion_refused (vmmInv.regionMapped member).loadSize large refused
  cases whole.symm.trans attempt.run
  have loop := attempt.mapping
  rw [mapPages_null attempt.inv.sound null] at loop
  exact (Prod.mk.inj (Option.some.inj loop)).2.symm

end Attempt

/-- A `vmm_alloc` that returned `NULL`, on a stack in which both invariants hold. -/
theorem Linked.failed_untouched_iff {blocks nodes : List Word} {overhang : Word} {allocations : List Heap.Live}
    (linked : Linked (viewOn heapWindow) state blocks overhang allocations nodes) {size flags : Word}
    {after : Vmm (Heap Machine)}
    (run : Vmm.vmmAlloc (heapPlatform platform) size flags state.vmm = some (0, after)) :
    Untouched state.vmm after ↔ StopsEarly size state.vmm := by
  rcases linked.vmm with ⟨unset, _⟩ | ⟨_, inv⟩
  · cases run.symm.trans (Vmm.vmmAlloc_unset _ unset size flags)
    exact iff_of_true (@untouched_refl _ [] unset) (.inl fun _ reaches => reaches.1 unset)
  · have keeps := linked.kmallocKeeps heapAllowed_heapWindow (kmallocReady_machine _ _)
    rcases Vmm.vmmAlloc_cases inv (pagesKeep_heapWindow flags) fun _ _ => keeps with
      ⟨idle, result⟩ | ⟨front, node, fresh, back, middle, cut, mapped, paged, rfl, attempt, outcome⟩
    · cases run.symm.trans result
      exact iff_of_true (untouched_refl inv.layout.chain) (.inl idle)
    · rcases outcome with ⟨rfl, result⟩ | ⟨_, _, _, result⟩
      · cases run.symm.trans result
        by_cases free : state.vmm.world.world.FrameFree
        · refine iff_of_false (attempt_paged_touched linked.heap attempt free) ?_
          rintro (idle | ⟨exhausted, _⟩)
          · exact idle node attempt.reaches
          · exact exhausted free
        · by_cases missing : Heap.findFirstFreeKernelBlock platform vmMetaSize state.vmm.world = some 0
          · have same := attempt_exhausted linked.heap inv attempt free missing
            subst same
            exact iff_of_true (untouched_refl inv.layout.chain) (.inr ⟨free, missing⟩)
          · have stored : fresh ≠ 0 := linked.heap.kmalloc_ne_zero heapAllowed_heapWindow (by decide) missing
              attempt.allocated
            refine iff_of_false (attempt_cut_touched attempt inv.layout.chain stored) ?_
            rintro (idle | ⟨_, none⟩)
            · exact idle node attempt.reaches
            · exact missing none
      · have base := congrArg Prod.fst (Option.some.inj (run.symm.trans result))
        exact absurd base.symm (inv.base_ne_zero (by simp))

/-- With the frames all used `vmm_alloc` cuts the region and then returns `NULL`. -/
theorem Fresh.vmmAlloc_outOfFrames {vmm : Vmm (Heap Machine)} (fresh : Fresh vmm 0) {blocks nodes : List Word}
    {overhang : Word} {allocations : List Heap.Live}
    (linked : Linked (viewOn heapWindow) ⟨vmm, [], []⟩ blocks overhang allocations nodes) :
    ∃ after, Vmm.vmmAlloc (heapPlatform platform) 0x1000 2 vmm = some (0, after) := by
  obtain ⟨region, reaches⟩ := fresh.reaches
  have inv := (linked.vmm.resolve_left fun unset => fresh.base unset.1).2
  have keeps := linked.kmallocKeeps heapAllowed_heapWindow (kmallocReady_machine _ _)
  rcases Vmm.vmmAlloc_cases inv (pagesKeep_heapWindow 2) fun _ _ => keeps with
    ⟨idle, _⟩ | ⟨front, node, storage, back, middle, cut, mapped, paged, _, attempt, outcome⟩
  · exact absurd reaches (idle region)
  · have null : (cut.world.allocBlock).1 = 0 := by
      refine congrArg Prod.fst (allocBlock_exhausted ?_)
      rw [FrameFree, fresh.cut_pmm attempt.run, ← Pmm.getNumFreeBlocks_pos, fresh.frames]
      exact Nat.lt_irrefl 0
    have loop := attempt.mapping
    rw [mapPages_null attempt.inv.sound null] at loop
    cases loop
    rcases outcome with ⟨_, run⟩ | ⟨contrary, _⟩
    · exact ⟨_, run⟩
    · contradiction

/-- A boot with 22 frames leaves none for the pages of a region. -/
theorem vmmAlloc_booted_outOfFrames : ∃ machine vmm after blocks overhang allocations nodes,
    initializePaging (Stage2.machine (fun _ => 0) (framesLeft 22 (by decide))) = some machine ∧
      Reachable platform (Unwrapped platform) machine ⟨vmm, [], []⟩ ∧ Fresh vmm 0 ∧
      Linked (viewOn heapWindow) ⟨vmm, [], []⟩ blocks overhang allocations nodes ∧
      Vmm.vmmAlloc (heapPlatform platform) 0x1000 2 vmm = some (0, after) := by
  obtain ⟨machine, vmm, booted, tables, booting, reached, fresh⟩ := @fresh_booted 0 (fun _ => 0)
    (framesLeft 22 (by decide)) framesLeft_reserved (by decide +kernel) (Unwrapped platform) fun _ => trivial
  obtain ⟨blocks, overhang, allocations, nodes, linked⟩ := fresh.linked
    (reached.consistent_heapWindow tables booting fun _ _ => id)
  obtain ⟨after, run⟩ := fresh.vmmAlloc_outOfFrames linked
  exact ⟨machine, vmm, after, blocks, overhang, allocations, nodes, booted, reached, fresh, linked, run⟩

/-- A `vmm_alloc` that returns `NULL` leaves the region list, the translations
and the used blocks alone exactly if it stops before it cuts a region, or if it
finds neither a frame nor storage for a node. -/
theorem failed_vmmAlloc_untouched_iff (memory : ByteMemory) (pmm : Pmm)
    (reserved : ∀ block < 1024, pmm.isBlockUsed block = true) (enough : 22 ≤ pmm.getNumFreeBlocks) :
    ∃ machine, initializePaging (Stage2.machine memory pmm) = some machine ∧
      ∀ state, Reachable platform (Unwrapped platform) machine state →
        ∀ (size flags : Word) (after : Vmm (Heap Machine)),
          Vmm.vmmAlloc (heapPlatform platform) size flags state.vmm = some (0, after) →
          (Untouched state.vmm after ↔ StopsEarly size state.vmm) := by
  obtain ⟨machine, booted, tables, _, booting⟩ := @booted_machine memory pmm reserved enough
  refine ⟨machine, booted, fun state reached size flags after run => ?_⟩
  rcases reached.consistent_heapWindow tables booting fun _ _ => id with ⟨_, _, unset, _⟩ | ⟨_, _, _, _, linked⟩
  · cases run.symm.trans (Vmm.vmmAlloc_unset _ unset size flags)
    exact iff_of_true (@untouched_refl _ [] unset) (.inl fun _ reaches => reaches.1 unset)
  · exact linked.failed_untouched_iff run

/-- The region is cut and stays so. -/
theorem failed_vmmAlloc_cuts_region : ∃ machine state after,
    initializePaging (Stage2.machine (fun _ => 0) (framesLeft 22 (by decide))) = some machine ∧
      Reachable platform (Unwrapped platform) machine state ∧
      Vmm.vmmAlloc (heapPlatform platform) 0x1000 2 state.vmm = some (0, after) ∧ ¬ Untouched state.vmm after := by
  obtain ⟨machine, vmm, after, _, _, _, _, booted, reached, fresh, linked, run⟩ := vmmAlloc_booted_outOfFrames
  refine ⟨machine, _, after, booted, reached, run, fun untouched => ?_⟩
  rcases (linked.failed_untouched_iff run).mp untouched with idle | ⟨_, missing⟩
  · obtain ⟨region, reaches⟩ := fresh.reaches
    exact idle region reaches
  · obtain ⟨block, nonnull, found⟩ := fresh.serves
    exact nonnull (Option.some.inj (found.symm.trans missing))

theorem failed_vmmAlloc_untouched_iff_outOfFrames : ∃ machine state after,
    initializePaging (Stage2.machine (fun _ => 0) (framesLeft 22 (by decide))) = some machine ∧
      Reachable platform (Unwrapped platform) machine state ∧
      Vmm.vmmAlloc (heapPlatform platform) 0x1000 2 state.vmm = some (0, after) ∧
      (Untouched state.vmm after ↔ StopsEarly 0x1000 state.vmm) := by
  obtain ⟨machine, vmm, after, _, _, _, _, booted, reached, _, _, run⟩ := vmmAlloc_booted_outOfFrames
  obtain ⟨again, rebooted, exactly⟩ := failed_vmmAlloc_untouched_iff (fun _ => 0) (framesLeft 22 (by decide))
    framesLeft_reserved (by decide +kernel)
  cases booted.symm.trans rebooted
  exact ⟨machine, _, after, booted, reached, run, exactly _ reached 0x1000 2 after run⟩

end Kernel

end ScratchOs
