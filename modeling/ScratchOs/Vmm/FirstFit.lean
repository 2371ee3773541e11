import ScratchOs.Vmm.Runs

namespace ScratchOs.Vmm

open Data

/-! When `vmm_alloc` finds space.

The search takes the first free region with room for the request; afterwards
`vmm_alloc` wants `BUFFER_SIZE` bytes more than the request and gives up if the
region it has found does not have them. -/

variable {τ : Type}

/-- A state a run can end in when the rest of the kernel works in between: it
takes and gives back frames and heap storage, and leaves the nodes alone. -/
inductive ReachableAmid (frames : FrameService τ) (kmalloc : Kmalloc τ) (start : ByteMemory × τ) :
    Vmm (ByteMemory × τ) → List Live → Prop
  | boot {vmm} : StorageApart kmalloc [] start →
      initializeVmm (flatHeapPlatform frames kmalloc) start = some vmm → ReachableAmid frames kmalloc start vmm []
  | vmmAlloc {vmm live ptr after} (size flags : Word) : ReachableAmid frames kmalloc start vmm live →
      (∀ nodes, RegionList vmm.world.1 vmm.vmBase nodes → StorageApart kmalloc nodes vmm.world) →
      vmmAlloc (flatHeapPlatform frames kmalloc) size flags vmm = some (ptr, after) →
      ReachableAmid frames kmalloc start after (held ptr size live)
  | vmmFree {vmm live after} (ptr : Word) : ReachableAmid frames kmalloc start vmm live →
      vmmFree (flatHeapPlatform frames kmalloc) ptr vmm = some after →
      ReachableAmid frames kmalloc start after (dropped ptr live)
  | others {vmm live} (world : ByteMemory × τ) : ReachableAmid frames kmalloc start vmm live →
      (∀ nodes, RegionList vmm.world.1 vmm.vmBase nodes →
        ∀ node ∈ nodes, Set.EqOn world.1 vmm.world.1 (recordSpan node)) →
      ReachableAmid frames kmalloc start { vmm with world := world } live

variable {frames : FrameService τ} {kmalloc : Kmalloc τ} {start : ByteMemory × τ}
  {vmm : Vmm (ByteMemory × τ)} {live : List Live} {nodes : List Word}

theorem ReachableAmid.tracked (reached : ReachableAmid frames kmalloc start vmm live) :
    Tracked frames kmalloc vmm live := by
  induction reached with
  | boot apart run => exact (Reachable.boot apart run).tracked.2
  | vmmAlloc size flags _ apart run ih =>
      obtain ⟨ptr, after, result, _, tracked⟩ := ih.vmmAlloc size flags apart
      cases run.symm.trans result
      exact tracked
  | vmmFree ptr _ run ih =>
      rw [vmmFree_eq] at run
      cases run
      rcases ih with ⟨base, rfl⟩ | ⟨base, nodes, inv⟩
      · exact .inl ⟨base, rfl⟩
      · exact .inr ⟨base, nodes, inv.drop ptr⟩
  | others world _ same ih =>
      rcases ih with ⟨base, rfl⟩ | ⟨base, nodes, inv⟩
      · exact .inl ⟨base, rfl⟩
      · exact .inr ⟨base, nodes, inv.of_same trivial subset_rfl (same nodes inv.layout.chain)⟩

/-- Any free region that is large enough makes the search end at one. -/
theorem firstFit_of_space {memory : ByteMemory} {size : Word}
    (space : ∃ node ∈ nodes, (region memory node).free = true ∧ size ≤ (region memory node).size) :
    ∃ node, firstFit memory size nodes = some node := by
  obtain ⟨node, member, free, fits⟩ := space
  refine Option.isSome_iff_exists.mp (List.find?_isSome.mpr ⟨node, member, ?_⟩)
  rw [free, decide_eq_true fits]
  rfl

/-- Splitting writes nodes; only its call of `kmalloc` can touch the frames. -/
theorem splitVirtualMemoryRegion_frames {node size : Word} {world after : ByteMemory × τ}
    (run : splitVirtualMemoryRegion (flatHeapPlatform frames kmalloc) node size world = some after)
    (large : ¬ (region world.1 node).size ≤ size) : after.2 = (kmalloc vmMetaSize world).2.2 := by
  change (if (region world.1 node).size ≤ size then some world else _) = _ at run
  rw [if_neg large] at run
  change (if (kmalloc vmMetaSize world).1 = 0 then some (kmalloc vmMetaSize world).2 else _) = _ at run
  split at run
  · rw [← Option.some.inj run]
  · rw [← Option.some.inj run]

/-- When some free region has room for the request, and there are frames and a
node for it: `vmm_alloc` succeeds exactly if the first such region has more than
just the room. A region of exactly the size hides all later ones. -/
theorem vmmAlloc_finds_space_iff (frames : FrameService τ) (kmalloc : Kmalloc τ) (start : ByteMemory × τ)
    (vmm : Vmm (ByteMemory × τ)) (live : List Live) (reached : ReachableAmid frames kmalloc start vmm live)
    (nodes : List Word) (listed : RegionList vmm.world.1 vmm.vmBase nodes) (size flags : Word)
    (nonzero : alignSizeToPageSize size ≠ 0)
    (space : ∃ node ∈ nodes, (region vmm.world.1 node).free = true ∧
      alignSizeToPageSize size ≤ (region vmm.world.1 node).size)
    (apart : StorageApart kmalloc nodes vmm.world) (metadata : (kmalloc vmMetaSize vmm.world).1 ≠ 0)
    (enough : ∀ (virtualAddr : Word) (memory : ByteMemory), FramesFor (flatPlatform frames) pageSize flags
      ((alignSizeToPageSize size).toNat / 4096 + 1) virtualAddr (memory, (kmalloc vmMetaSize vmm.world).2.2)) :
    (∃ ptr after, Vmm.vmmAlloc (flatHeapPlatform frames kmalloc) size flags vmm = some (ptr, after) ∧ ptr ≠ 0) ↔
      ∃ node, firstFit vmm.world.1 (alignSizeToPageSize size) nodes = some node ∧
        alignSizeToPageSize size < (region vmm.world.1 node).size := by
  rcases reached.tracked with ⟨base, _⟩ | ⟨_, nodes', inv⟩
  · have empty : nodes = [] := listed.unique base
    rw [empty] at space
    simp at space
  cases inv.layout.chain.unique listed
  obtain ⟨node, found⟩ := firstFit_of_space space
  have reaches := inv.reachesSplit_iff nonzero found
  change _ ↔ alignSizeToPageSize size < (region vmm.world.1 node).size at reaches
  have larger : (∃ other, firstFit vmm.world.1 (alignSizeToPageSize size) nodes = some other ∧
      alignSizeToPageSize size < (region vmm.world.1 other).size) ↔
        ∃ freeRegion, ReachesSplit (flatHeapPlatform frames kmalloc) size vmm freeRegion := by
    rw [reaches, found]
    simp
  rw [larger]
  rcases vmmAlloc_cases inv (pagesKeep_flat flags) (fun _ _ => apart.keeps) with
    ⟨idle, run⟩ | ⟨front, chosen, fresh, back, middle, cut, mapped, paged, rfl, attempt, outcome⟩
  · refine iff_of_false ?_ (not_exists.mpr idle)
    rintro ⟨ptr, after, result, nonnull⟩
    cases run.symm.trans result
    exact nonnull rfl
  · refine iff_of_true ?_ ⟨chosen, attempt.reaches⟩
    have frame : cut.2 = (kmalloc vmMetaSize vmm.world).2.2 := by
      refine splitVirtualMemoryRegion_frames attempt.run ?_
      have large := attempt.large
      change _ < (region vmm.world.1 chosen).size.toNat at large
      rw [BitVec.le_def]
      omega
    have stored : fresh ≠ 0 := by
      have storage : (kmalloc vmMetaSize vmm.world).1 = fresh := congrArg Prod.fst (Option.some.inj attempt.allocated)
      rwa [storage] at metadata
    have request : (region cut.1 chosen).size = alignSizeToPageSize size := by
      have first := attempt.split.first
      rw [cutRegion, if_neg stored] at first
      exact congrArg Region.size first
    have pages := attempt.mapping
    change mapPages (flatPlatform frames) pageSize flags ((region cut.1 chosen).size.toNat / 4096 + 1) _ _ = _ at pages
    rw [request] at pages
    have framed := enough (region cut.1 chosen).base cut.1
    rw [← frame] at framed
    have full := mapPages_of_framesFor framed pages
    rcases outcome with ⟨short, _⟩ | ⟨_, after, _, run⟩
    · rw [full] at short
      contradiction
    · exact ⟨_, _, run, inv.base_ne_zero (by simp)⟩

/-- Frames are counted; the heap storage is handed out in one row. -/
def countedFrames : FrameService (Nat × Word) where
  allocBlock state := ((takeFrame state.1).1, (takeFrame state.1).2, state.2)
  freeBlock _ state := (state.1 + 1, state.2)
  mapAddress _ _ _ state := (true, state)
  allocBlock_null state null := Prod.ext (takeFrame_null state.1 null) rfl

def countedKmalloc : Kmalloc (Nat × Word) := fun nbytes state => (state.2.2, state.1, state.2.1, state.2.2 + nbytes)

/-- The manager on counted frames: `initialize_vmm` with one frame left. -/
def oneFrame : Option (Vmm (ByteMemory × Nat × Word)) :=
  initializeVmm (flatHeapPlatform countedFrames countedKmalloc) (fun _ => 0, 1, 0xD0000010)

/-- Other code has given frames back. -/
def refill (frames : Nat) (vmm : Vmm (ByteMemory × Nat × Word)) : Vmm (ByteMemory × Nat × Word) :=
  { vmm with world := (vmm.world.1, frames, vmm.world.2.2) }

/-- Storage in one row meets no node before it. -/
theorem countedKmalloc_apart {nodes : List Word} {world : ByteMemory × Nat × Word}
    (before : ∀ node ∈ nodes, node.toNat + 16 ≤ world.2.2.toNat) (room : world.2.2.toNat + 16 ≤ 2 ^ 32) :
    StorageApart countedKmalloc nodes world := by
  refine ⟨fun _ _ _ _ => rfl, fun _ => ⟨room, fun node member => Set.disjoint_left.mpr fun address => ?_⟩⟩
  have apart := before node member
  change address ∈ span world.2.2.toNat 16 → _
  rw [mem_span, mem_span]
  omega

theorem framesFor_counted {left count : Nat} (flags virtualAddr : Word) (memory : ByteMemory) (next : Word)
    (enough : count ≤ left) :
    FramesFor (flatPlatform countedFrames) pageSize flags count virtualAddr (memory, left, next) := by
  induction count generalizing left virtualAddr with
  | zero => trivial
  | succ count ih =>
      obtain ⟨left, rfl⟩ := Nat.exists_eq_succ_of_ne_zero (Nat.ne_of_gt (Nat.lt_of_lt_of_le (Nat.succ_pos _) enough))
      refine ⟨by simp [flatPlatform, countedFrames, takeFrame], fun mapped after run => ?_⟩
      cases run
      exact ih _ (Nat.le_of_succ_le_succ enough)

theorem oneFrame_result : (oneFrame.map fun vmm => (vmm.vmBase, vmm.world.2.2, (region vmm.world.1 0xD0000010).next,
    (region vmm.world.1 0xD0000010).free, (region vmm.world.1 0xD0000010).size)) =
      some (0xD0000010, 0xD0000020, 0, true, 0xBFC00000) := by decide +kernel

theorem vmmAlloc_finds_space_iff_oneRegion : ∃ vmm, ReachableAmid countedFrames countedKmalloc
    (fun _ => 0, 1, 0xD0000010) vmm [] ∧ ∃ ptr after,
      Vmm.vmmAlloc (flatHeapPlatform countedFrames countedKmalloc) 0x1000 2 vmm = some (ptr, after) ∧ ptr ≠ 0 := by
  obtain ⟨booted, boot, result⟩ := Option.map_eq_some_iff.mp oneFrame_result
  simp only [Prod.mk.injEq] at result
  obtain ⟨base, storage, next, free, size⟩ := result
  have listed : RegionList booted.world.1 booted.vmBase [0xD0000010] := ⟨base, by decide, next⟩
  have reached : ReachableAmid countedFrames countedKmalloc (fun _ => 0, 1, 0xD0000010) (refill 2 booted) [] :=
    .others _ (.boot (countedKmalloc_apart (by simp) (by decide)) boot) fun _ _ _ _ _ _ => rfl
  have apart : StorageApart countedKmalloc [0xD0000010] (refill 2 booted).world := by
    apply countedKmalloc_apart
    · simp [refill, storage]
    · rw [refill, storage]
      decide
  have metadata : (countedKmalloc vmMetaSize (refill 2 booted).world).1 ≠ 0 := by
    change booted.world.2.2 ≠ 0
    rw [storage]
    decide
  have fits : alignSizeToPageSize 0x1000 < (region (refill 2 booted).world.1 0xD0000010).size := by
    rw [refill, size]
    decide
  have found : firstFit (refill 2 booted).world.1 (alignSizeToPageSize 0x1000) [0xD0000010] = some 0xD0000010 := by
    rw [firstFit, List.find?_singleton, refill, free, size]
    decide
  exact ⟨refill 2 booted, reached, (vmmAlloc_finds_space_iff _ _ _ _ _ reached [0xD0000010] listed 0x1000 2
    (by decide) ⟨_, by simp, free, BitVec.le_of_lt fits⟩ apart metadata fun virtualAddr memory =>
    framesFor_counted 2 virtualAddr memory _ (show (alignSizeToPageSize 0x1000).toNat / 4096 + 1 ≤ 2 by decide)).mpr
      ⟨_, found, fits⟩⟩

/-- `vmm_alloc` of one page when there is one frame: the region is cut, but the
second page of the loop finds no frame. -/
def cutAndFailed : Option (Vmm (ByteMemory × Nat × Word) × Word × Vmm (ByteMemory × Nat × Word)) := do
  let booted ← oneFrame
  let (ptr, failed) ← Vmm.vmmAlloc (flatHeapPlatform countedFrames countedKmalloc) 0x1000 2 booted
  some (booted, ptr, failed)

theorem cutAndFailed_result : (cutAndFailed.map fun result => ((result.2.1, result.2.2.vmBase, result.2.2.world.2.2),
    ((region result.2.2.world.1 0xD0000010).next, (region result.2.2.world.1 0xD0000020).next),
    ((region result.2.2.world.1 0xD0000020).free, (region result.2.2.world.1 0xD0000020).size),
    (Vmm.vmmAlloc (flatHeapPlatform countedFrames countedKmalloc) 0x1000 2 (refill 10 result.2.2)).map Prod.fst)) =
      some ((0, 0xD0000010, 0xD0000030), (0xD0000020, 0), (true, 0xBFBFF000), some 0) := by decide +kernel

/-- Ten frames, storage for a node and a free region of three gigabytes, and a
request for one page is refused. -/
theorem exactRegion_hides_space : ∃ vmm nodes, ReachableAmid countedFrames countedKmalloc
    (fun _ => 0, 1, 0xD0000010) vmm [] ∧ RegionList vmm.world.1 vmm.vmBase nodes ∧
      (∃ node ∈ nodes, (region vmm.world.1 node).free = true ∧
        alignSizeToPageSize 0x1000 ≤ (region vmm.world.1 node).size) ∧
      StorageApart countedKmalloc nodes vmm.world ∧ (countedKmalloc vmMetaSize vmm.world).1 ≠ 0 ∧
      (∀ (virtualAddr : Word) (memory : ByteMemory), FramesFor (flatPlatform countedFrames) pageSize 2
        ((alignSizeToPageSize 0x1000).toNat / 4096 + 1) virtualAddr (memory, (countedKmalloc vmMetaSize vmm.world).2.2)) ∧
      (Vmm.vmmAlloc (flatHeapPlatform countedFrames countedKmalloc) 0x1000 2 vmm).map Prod.fst = some 0 := by
  obtain ⟨⟨booted, ptr, failed⟩, run, result⟩ := Option.map_eq_some_iff.mp cutAndFailed_result
  simp only [cutAndFailed, Option.bind_eq_bind, Option.bind_eq_some_iff, Option.some.injEq, Prod.mk.injEq,
    Prod.exists] at run result
  obtain ⟨booted, boot, ptr, failed, request, rfl, rfl, rfl⟩ := run
  obtain ⟨⟨rfl, base, storage⟩, ⟨first, second⟩, ⟨free, size⟩, refused⟩ := result
  have initial := oneFrame_result
  rw [boot] at initial
  simp only [Option.map_some, Option.some.injEq, Prod.mk.injEq] at initial
  obtain ⟨bootedBase, bootedStorage, bootedNext, _⟩ := initial
  have only : RegionList booted.world.1 booted.vmBase [0xD0000010] := ⟨bootedBase, by decide, bootedNext⟩
  have listed : RegionList failed.world.1 failed.vmBase [0xD0000010, 0xD0000020] := by
    refine ⟨base, by decide, ?_⟩
    change Chain 0 _ (region failed.world.1 0xD0000010).next _
    rw [first]
    exact ⟨rfl, by decide, second⟩
  have reached : ReachableAmid countedFrames countedKmalloc (fun _ => 0, 1, 0xD0000010) failed [] := by
    refine .vmmAlloc 0x1000 2 (.boot (countedKmalloc_apart (by simp) (by decide)) boot) (fun nodes listed => ?_) request
    cases listed.unique only
    apply countedKmalloc_apart
    · simp [bootedStorage]
    · rw [bootedStorage]
      decide
  refine ⟨refill 10 failed, _, .others _ reached fun _ _ _ _ _ _ => rfl, listed, ⟨0xD0000020, by simp, free, ?_⟩, ?_, ?_,
    fun virtualAddr memory => framesFor_counted 2 virtualAddr memory _
      (show (alignSizeToPageSize 0x1000).toNat / 4096 + 1 ≤ 10 by decide), refused⟩
  · rw [refill, size]
    decide
  · apply countedKmalloc_apart
    · simp [refill, storage]
    · rw [refill, storage]
      decide
  · change failed.world.2.2 ≠ 0
    rw [storage]
    decide

end ScratchOs.Vmm
