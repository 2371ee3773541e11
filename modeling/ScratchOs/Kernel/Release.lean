import ScratchOs.Kernel.Stack

namespace ScratchOs.Kernel

open Data

variable {τ : Type}

/-! What becomes of a region after `vmm_free`. -/

/-- The address lies in a free region of the list that is large enough for the
page-rounded size. -/
def Released (vmm : Vmm (Heap (ByteMemory × τ))) (ptr size : Word) : Prop :=
  ∃ nodes, Vmm.RegionList vmm.world.world.1 vmm.vmBase nodes ∧
    ∃ node ∈ nodes, (Vmm.region vmm.world.world.1 node).free = true ∧
      ptr ∈ Vmm.regionBytes vmm.world.world.1 node ∧
      (Vmm.alignSizeToPageSize size).toNat ≤ (Vmm.region vmm.world.world.1 node).size.toNat

variable {frames : FrameService τ} {start : ByteMemory × τ} {state : State (ByteMemory × τ)}

theorem callReady_flat {vmm : Vmm (Heap (ByteMemory × τ))} {call : Call}
    (within : Unwrapped (flatPlatform frames) vmm call) : CallReady (FlatView.flat frames) vmm call := by
  cases call with
  | initializeVmm => exact Heap.kmallocReady_flat frames _ _
  | kmalloc nbytes => exact ⟨within, Heap.kmallocReady_flat frames _ _⟩
  | kfree ptr => trivial
  | vmmAlloc size flags =>
      refine ⟨fun _ _ _ _ sound => ?_, fun _ _ => Heap.kmallocReady_flat frames _ _⟩
      exact .of_allowed sound trivial fun _ => trivial
  | vmmFree ptr => trivial

theorem Reachable.consistent_flat
    (reached : Reachable (flatPlatform frames) (Unwrapped (flatPlatform frames)) start state) :
    Consistent (FlatView.flat frames) state :=
  reached.consistent (Heap.heapAllowed_flat frames) trivial (Heap.readyPages_flat frames _ _ start)
    fun _ _ => callReady_flat

/-- A region that is held is used, so no free region has its base. -/
theorem Consistent.not_released (consistent : Consistent (FlatView.flat frames) state) {ptr size : Word}
    (live : (ptr, size) ∈ state.regions) : ¬ Released state.vmm ptr size := by
  rintro ⟨nodes, listed, node, member, free, inside, _⟩
  rcases consistent with ⟨_, _, _, _, noRegions⟩ | ⟨_, _, _, nodes', linked⟩
  · rw [noRegions] at live
    simp at live
  · rcases linked.vmm with ⟨_, _, noRegions⟩ | ⟨_, inv⟩
    · rw [noRegions] at live
      simp at live
    · cases listed.unique inv.layout.chain
      obtain ⟨owner, ownerMember, base, used, _⟩ := inv.owner _ live
      change (Vmm.region state.vmm.world.world.1 owner).base = ptr at base
      change (Vmm.region state.vmm.world.world.1 owner).free = false at used
      have different : owner ≠ node := by
        rintro rfl
        rw [free] at used
        contradiction
      have order := inv.layout.tiles.apart ownerMember member different
      have positive := (inv.layout.pages owner ownerMember).1
      change 0 < (Vmm.region state.vmm.world.world.1 owner).size.toNat at positive
      change (Vmm.region state.vmm.world.world.1 owner).base.toNat +
          (Vmm.region state.vmm.world.world.1 owner).size.toNat ≤
            (Vmm.region state.vmm.world.world.1 node).base.toNat ∨
        (Vmm.region state.vmm.world.world.1 node).base.toNat +
          (Vmm.region state.vmm.world.world.1 node).size.toNat ≤
            (Vmm.region state.vmm.world.world.1 owner).base.toNat at order
      rw [base] at order
      simp only [Vmm.regionBytes, mem_span] at inside
      omega

/-- `vmm_free` of a pointer from `vmm_alloc` releases nothing, in any state of any run. -/
theorem vmm_free_releases_nothing (frames : FrameService τ) (start : ByteMemory × τ)
    (state : State (ByteMemory × τ))
    (reached : Reachable (flatPlatform frames) (Unwrapped (flatPlatform frames)) start state)
    (ptr size : Word) (live : (ptr, size) ∈ state.regions) :
    ∃ after, Vmm.vmmFree (heapPlatform (flatPlatform frames)) ptr state.vmm = some after ∧
      ¬ Released after ptr size :=
  ⟨state.vmm, Vmm.vmmFree_eq .., reached.consistent_flat.not_released live⟩

/-- Boot the stack and allocate one page of virtual memory. -/
def onePage : Option (State (ByteMemory × Unit)) := do
  let heap ← Heap.initializeKernelHeap (flatPlatform Heap.plentiful) (fun _ => 0, ())
  let state ← Call.initializeVmm.run (flatPlatform Heap.plentiful) ⟨⟨0, heap⟩, [], []⟩
  (Call.vmmAlloc 0x1000 pteReadWrite).run (flatPlatform Heap.plentiful) state

theorem onePage_regions : onePage.map State.regions = some [(0x400000, 0x1000)] := by decide +kernel

theorem onePage_reachable {state : State (ByteMemory × Unit)} (run : onePage = some state) :
    Reachable (flatPlatform Heap.plentiful) (Unwrapped (flatPlatform Heap.plentiful)) (fun _ => 0, ()) state := by
  simp only [onePage, Option.bind_eq_bind, Option.bind_eq_some_iff] at run
  obtain ⟨heap, boot, middle, initialized, allocated⟩ := run
  exact .call (.vmmAlloc ..) (.call .initializeVmm (.boot boot) rfl trivial initialized) trivial trivial allocated

theorem onePage_kept : ∃ state,
    Reachable (flatPlatform Heap.plentiful) (Unwrapped (flatPlatform Heap.plentiful)) (fun _ => 0, ()) state ∧
    (0x400000, 0x1000) ∈ state.regions ∧
    ∀ after, Vmm.vmmFree (heapPlatform (flatPlatform Heap.plentiful)) 0x400000 state.vmm = some after →
      ¬ Released after 0x400000 0x1000 := by
  obtain ⟨state, run, regions⟩ := Option.map_eq_some_iff.mp onePage_regions
  have reached := onePage_reachable run
  have live : (0x400000, 0x1000) ∈ state.regions := by simp [regions]
  refine ⟨state, reached, live, fun after freed => ?_⟩
  rw [Vmm.vmmFree_eq] at freed
  cases freed
  exact reached.consistent_flat.not_released live

theorem vmm_free_releases_nothing_onePage : ∃ state : State (ByteMemory × Unit), (0x400000, 0x1000) ∈ state.regions ∧
    ∃ after, Vmm.vmmFree (heapPlatform (flatPlatform Heap.plentiful)) 0x400000 state.vmm = some after ∧
      ¬ Released after 0x400000 0x1000 := by
  obtain ⟨state, run, regions⟩ := Option.map_eq_some_iff.mp onePage_regions
  have live : (0x400000, 0x1000) ∈ state.regions := by simp [regions]
  exact ⟨state, live, vmm_free_releases_nothing _ _ _ (onePage_reachable run) _ _ live⟩

end ScratchOs.Kernel
