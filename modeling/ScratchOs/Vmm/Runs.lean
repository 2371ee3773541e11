import ScratchOs.Vmm.Spec

namespace ScratchOs.Vmm

open Data

/-! Whole runs of the manager: `initialize_vmm` once, then any calls of
`vmm_alloc` and `vmm_free` with any arguments. Frames and `kmalloc` are
arbitrary, so any of their calls may fail. -/

variable {τ : Type}

abbrev Kmalloc (τ : Type) := Word → ByteMemory × τ → Word × ByteMemory × τ

def flatHeapPlatform (frames : FrameService τ) (kmalloc : Kmalloc τ) : HeapPlatform (ByteMemory × τ) where
  toPlatform := flatPlatform frames
  kmalloc nbytes state := some (kmalloc nbytes state)

/-- The assumption on `kmalloc`: it leaves the existing nodes alone, and
storage it returns is disjoint from all of them. -/
def StorageApart (kmalloc : Kmalloc τ) (nodes : List Word) (state : ByteMemory × τ) : Prop :=
  (∀ node ∈ nodes, Set.EqOn (kmalloc vmMetaSize state).2.1 state.1 (recordSpan node)) ∧
  ((kmalloc vmMetaSize state).1 ≠ 0 → (kmalloc vmMetaSize state).1.toNat + 16 ≤ 2 ^ 32 ∧
    ∀ node ∈ nodes, Disjoint (recordSpan (kmalloc vmMetaSize state).1) (recordSpan node))

/-- A state a run can end in, with the pointers returned and not freed. -/
inductive Reachable (frames : FrameService τ) (kmalloc : Kmalloc τ) (start : ByteMemory × τ) :
    Vmm (ByteMemory × τ) → List Live → Prop
  | boot {vmm} : StorageApart kmalloc [] start →
      initializeVmm (flatHeapPlatform frames kmalloc) start = some vmm → Reachable frames kmalloc start vmm []
  | vmmAlloc {vmm live ptr after} (size flags : Word) : Reachable frames kmalloc start vmm live →
      (∀ nodes, RegionList vmm.world.1 vmm.vmBase nodes → StorageApart kmalloc nodes vmm.world) →
      vmmAlloc (flatHeapPlatform frames kmalloc) size flags vmm = some (ptr, after) →
      Reachable frames kmalloc start after (held ptr size live)
  | vmmFree {vmm live after} (ptr : Word) : Reachable frames kmalloc start vmm live →
      vmmFree (flatHeapPlatform frames kmalloc) ptr vmm = some after →
      Reachable frames kmalloc start after (dropped ptr live)

variable {frames : FrameService τ} {kmalloc : Kmalloc τ} {start : ByteMemory × τ}
  {vmm : Vmm (ByteMemory × τ)} {live : List Live} {nodes : List Word}

/-- The flat view of a platform that also has a heap. -/
abbrev flatView (frames : FrameService τ) (kmalloc : Kmalloc τ) :
    FlatView (flatHeapPlatform frames kmalloc).toPlatform := FlatView.flat frames

theorem StorageApart.keeps {state : ByteMemory × τ} (apart : StorageApart kmalloc nodes state) :
    KmallocKeeps (flatView frames kmalloc) nodes state :=
  ⟨_, _, rfl, trivial, subset_rfl, apart.1, fun nonnull =>
    ⟨⟨trivial, (apart.2 nonnull).1, Set.subset_univ _⟩, (apart.2 nonnull).2⟩⟩

theorem pagesKeep_flat (flags : Word) : PagesKeep (flatView frames kmalloc) flags :=
  fun _ _ _ _ sound => .of_allowed sound trivial fun _ => trivial

/-- A manager that got no node at boot, or one that satisfies the invariant. -/
def Tracked (frames : FrameService τ) (kmalloc : Kmalloc τ) (vmm : Vmm (ByteMemory × τ)) (live : List Live) :
    Prop :=
  (vmm.vmBase = 0 ∧ live = []) ∨ (vmm.vmBase ≠ 0 ∧ ∃ nodes, Inv (flatView frames kmalloc) vmm nodes live)

theorem Tracked.vmmAlloc (tracked : Tracked frames kmalloc vmm live) (size flags : Word)
    (apart : ∀ nodes, RegionList vmm.world.1 vmm.vmBase nodes → StorageApart kmalloc nodes vmm.world) :
    ∃ ptr after, Vmm.vmmAlloc (flatHeapPlatform frames kmalloc) size flags vmm = some (ptr, after) ∧
      after.vmBase = vmm.vmBase ∧ Tracked frames kmalloc after (held ptr size live) := by
  rcases tracked with ⟨base, rfl⟩ | ⟨base, nodes, inv⟩
  · exact ⟨0, vmm, vmmAlloc_unset _ base size flags, rfl, .inl ⟨base, by simp [held]⟩⟩
  · obtain ⟨ptr, after, run, _, nodes', sameBase, invAfter, _⟩ := @vmmAlloc_spec _ _ _ _ _ _ inv size _
      (pagesKeep_flat flags) fun _ _ => (apart nodes inv.layout.chain).keeps
    exact ⟨ptr, after, run, sameBase, .inr ⟨by rwa [sameBase], nodes', invAfter⟩⟩

theorem Reachable.tracked (reached : Reachable frames kmalloc start vmm live) :
    vmm.vmBase = (kmalloc vmMetaSize start).1 ∧ Tracked frames kmalloc vmm live := by
  induction reached with
  | @boot booted apart run =>
      obtain ⟨vmm, middle, result, allocated, _, outcome⟩ :=
        @initializeVmm_spec _ _ (flatView frames kmalloc) _ apart.keeps
      cases run.symm.trans result
      have base : booted.vmBase = (kmalloc vmMetaSize start).1 :=
        (congrArg Prod.fst (Option.some.inj allocated)).symm
      rcases outcome with ⟨null, _⟩ | ⟨nonnull, inv, _⟩
      · exact ⟨base, .inl ⟨null, rfl⟩⟩
      · exact ⟨base, .inr ⟨nonnull, _, inv⟩⟩
  | vmmAlloc size flags _ apart run ih =>
      obtain ⟨ptr, after, result, base, tracked⟩ := ih.2.vmmAlloc size flags apart
      cases run.symm.trans result
      exact ⟨base.trans ih.1, tracked⟩
  | vmmFree ptr _ run ih =>
      rw [vmmFree_eq] at run
      cases run
      refine ⟨ih.1, ?_⟩
      rcases ih.2 with ⟨base, rfl⟩ | ⟨base, nodes, inv⟩
      · exact .inl ⟨base, rfl⟩
      · exact .inr ⟨base, nodes, inv.drop ptr⟩

/-! What the invariant says about the list. -/

def regionBytes (memory : ByteMemory) (node : Word) : Set Word :=
  span (region memory node).base.toNat (region memory node).size.toNat

/-- The shape of a region list, as the source maintains it. -/
structure WellTiled (memory : ByteMemory) (nodes : List Word) : Prop where
  increasing : nodes.Pairwise fun left right => (region memory left).base < (region memory right).base
  pages : ∀ node ∈ nodes, (region memory node).base ≠ 0 ∧ (region memory node).size ≠ 0 ∧
    (region memory node).base.toNat % 4096 = 0 ∧ (region memory node).size.toNat % 4096 = 0
  adjacent : ∀ before left right after, nodes = before ++ left :: right :: after →
    (region memory left).base + (region memory left).size = (region memory right).base
  first : ∀ node, nodes.head? = some node → (region memory node).base = virtualMemoryStart
  last : ∀ node, nodes.getLast? = some node →
    (region memory node).base + (region memory node).size = virtualMemoryEnd

variable {memory : ByteMemory} {vmBase : Word}

theorem Layout.wellTiled (layout : Layout memory vmBase nodes) : WellTiled memory nodes where
  increasing := by
    refine layout.tiles.pairwise.imp_of_mem fun {left right} leftMember _ order => ?_
    have positive := (layout.pages left leftMember).1
    rw [BitVec.lt_def]
    omega
  pages node member := by
    have bounds := layout.bounds member
    have pages := layout.pages node member
    have aligned := layout.tiles.position_mod (fun node member => (layout.pages node member).2) member
    refine ⟨?_, ?_, aligned, pages.2⟩
    · intro zero
      rw [zero] at bounds
      simp at bounds
    · intro zero
      rw [zero] at pages
      simp at pages
  adjacent before left right after split := by
    subst split
    have bounds := layout.bounds (show left ∈ before ++ left :: right :: after by simp)
    obtain ⟨middle, _, placed, following, _⟩ := Tiles.append.mp layout.tiles
    apply BitVec.eq_of_toNat_eq
    rw [BitVec.toNat_add_of_lt (by omega)]
    dsimp only at placed following
    omega
  first node head := by
    obtain ⟨rest, rfl⟩ := List.head?_eq_some_iff.mp head
    exact BitVec.eq_of_toNat_eq layout.tiles.1
  last node final := by
    obtain ⟨front, rfl⟩ := List.getLast?_eq_some_iff.mp final
    have bounds := layout.bounds (show node ∈ front ++ [node] by simp)
    obtain ⟨middle, _, placed, ends⟩ := Tiles.append.mp layout.tiles
    apply BitVec.eq_of_toNat_eq
    rw [BitVec.toNat_add_of_lt (by omega)]
    dsimp only [Tiles] at placed ends
    rw [placed, ends]
    rfl

theorem Inv.getTotalSize_eq (inv : Inv (flatView frames kmalloc) vmm nodes live) :
    getTotalSize (flatHeapPlatform frames kmalloc) vmm = some (virtualMemoryEnd - virtualMemoryStart) := by
  have total := inv.layout.tiles.sum_length
  have walked := @getTotalSizeFrom_eq _ _ (flatView frames kmalloc) _ _ walkFuel _ 0 inv.layout.chain
    (fun _ => inv.regionMapped) inv.layout.length_lt_walkFuel
  have sum : (nodes.map fun node => (region vmm.world.1 node).size.toNat).sum = 0xBFC00000 := by
    change 0x400000 + (nodes.map fun node => (region vmm.world.1 node).size.toNat).sum = 0xC0000000 at total
    omega
  change getTotalSize _ vmm = some (0 + BitVec.ofNat 32
    (nodes.map fun node => (region vmm.world.1 node).size.toNat).sum) at walked
  rw [walked, sum]
  rfl

/-- Two pointers held at once stand at the bases of two regions. -/
theorem Inv.live_disjoint (inv : Inv (flatView frames kmalloc) vmm nodes live) :
    live.Pairwise fun left right => ∀ leftNode ∈ nodes, ∀ rightNode ∈ nodes,
      (region vmm.world.1 leftNode).base = left.1 → (region vmm.world.1 rightNode).base = right.1 →
      Disjoint (regionBytes vmm.world.1 leftNode) (regionBytes vmm.world.1 rightNode) := by
  have distinct : live.Pairwise fun left right => left.1 ≠ right.1 := List.pairwise_map.mp inv.nodup
  refine distinct.imp fun different leftNode leftMember rightNode rightMember leftBase rightBase => ?_
  have apart : leftNode ≠ rightNode := by
    rintro rfl
    exact different (leftBase.symm.trans rightBase)
  have order := inv.layout.tiles.apart leftMember rightMember apart
  rw [Set.disjoint_left]
  intro address
  simp only [regionBytes, mem_span]
  change (region vmm.world.1 leftNode).base.toNat + (region vmm.world.1 leftNode).size.toNat ≤
      (region vmm.world.1 rightNode).base.toNat ∨
    (region vmm.world.1 rightNode).base.toNat + (region vmm.world.1 rightNode).size.toNat ≤
      (region vmm.world.1 leftNode).base.toNat at order
  omega

/-- The region list tiles the window over every run, whatever fails on the way:
`get_total_size` never changes, live pointers have used regions of their own
inside the window, and no call gets stuck. -/
theorem region_list_tiles (frames : FrameService τ) (kmalloc : Kmalloc τ) (start : ByteMemory × τ)
    (vmm : Vmm (ByteMemory × τ)) (live : List Live) (reached : Reachable frames kmalloc start vmm live) :
    vmm.vmBase = (kmalloc vmMetaSize start).1 ∧
    (∃ nodes, RegionList vmm.world.1 vmm.vmBase nodes ∧ (nodes = [] ↔ vmm.vmBase = 0) ∧
      WellTiled vmm.world.1 nodes ∧
      (∀ entry ∈ live, ∃ node ∈ nodes, (region vmm.world.1 node).base = entry.1 ∧
        (region vmm.world.1 node).free = false ∧
        regionBytes vmm.world.1 node ⊆ span 0x400000 (0xC0000000 - 0x400000)) ∧
      live.Pairwise fun left right => ∀ leftNode ∈ nodes, ∀ rightNode ∈ nodes,
        (region vmm.world.1 leftNode).base = left.1 → (region vmm.world.1 rightNode).base = right.1 →
        Disjoint (regionBytes vmm.world.1 leftNode) (regionBytes vmm.world.1 rightNode)) ∧
    getTotalSize (flatHeapPlatform frames kmalloc) vmm =
      some (if vmm.vmBase = 0 then 0 else virtualMemoryEnd - virtualMemoryStart) ∧
    (∀ size flags : Word,
      (∀ nodes, RegionList vmm.world.1 vmm.vmBase nodes → StorageApart kmalloc nodes vmm.world) →
      (Vmm.vmmAlloc (flatHeapPlatform frames kmalloc) size flags vmm).isSome = true) ∧
    (∀ ptr : Word, (Vmm.vmmFree (flatHeapPlatform frames kmalloc) ptr vmm).isSome = true) := by
  obtain ⟨base, tracked⟩ := reached.tracked
  refine ⟨base, ?_, ?_, ?_, ?_⟩
  · rcases tracked with ⟨null, rfl⟩ | ⟨nonnull, nodes, inv⟩
    · exact ⟨[], null, iff_of_true rfl null, ⟨.nil, by simp, by simp, by simp, by simp⟩, by simp, .nil⟩
    · refine ⟨nodes, inv.layout.chain, iff_of_false ?_ nonnull, inv.layout.wellTiled, ?_, inv.live_disjoint⟩
      · rintro rfl
        exact nonnull inv.layout.chain
      · intro entry entryMember
        obtain ⟨node, member, pointer, used, _⟩ := inv.owner entry entryMember
        have bounds := inv.layout.bounds member
        change 0x400000 ≤ (region vmm.world.1 node).base.toNat ∧ (region vmm.world.1 node).base.toNat +
          (region vmm.world.1 node).size.toNat ≤ 0xC0000000 at bounds
        refine ⟨node, member, pointer, used, ?_⟩
        intro address
        simp only [regionBytes, mem_span]
        omega
  · rcases tracked with ⟨null, _⟩ | ⟨nonnull, nodes, inv⟩
    · have empty := @getTotalSizeFrom_eq _ _ (flatView frames kmalloc) [] vmm.world walkFuel vmm.vmBase 0 null
        (by simp) (by decide)
      simpa [null, getTotalSize] using empty
    · rw [if_neg nonnull]
      exact inv.getTotalSize_eq
  · intro size flags apart
    obtain ⟨ptr, after, run, _⟩ := tracked.vmmAlloc size flags apart
    rw [run]
    rfl
  · intro ptr
    rw [vmmFree_eq]
    rfl

/-- Frames never run out; the state is the next free heap address. -/
def bumpFrames : FrameService Word where
  allocBlock state := (0x1000, state)
  freeBlock _ state := state
  mapAddress _ _ _ state := (true, state)
  allocBlock_null _ _ := rfl

def bumpKmalloc : Kmalloc Word := fun nbytes state => (state.2, state.1, state.2 + nbytes)

def bumpStart : ByteMemory × Word := (fun _ => 0, 0xD0000010)

def oneRegion : Option (Vmm (ByteMemory × Word)) :=
  initializeVmm (flatHeapPlatform bumpFrames bumpKmalloc) bumpStart

theorem oneRegion_result : (oneRegion.map fun vmm =>
    (vmm.vmBase, vmm.world.2, (region vmm.world.1 0xD0000010).next,
      (Vmm.vmmAlloc (flatHeapPlatform bumpFrames bumpKmalloc) 0x1000 2 vmm).map Prod.fst)) =
      some (0xD0000010, 0xD0000020, 0, some 0x400000) := by decide +kernel

theorem region_list_tiles_oneRegion : ∃ vmm nodes,
    Reachable bumpFrames bumpKmalloc bumpStart vmm [(0x400000, 0x1000)] ∧
    RegionList vmm.world.1 vmm.vmBase nodes ∧ WellTiled vmm.world.1 nodes := by
  obtain ⟨booted, boot, result⟩ := Option.map_eq_some_iff.mp oneRegion_result
  simp only [Prod.mk.injEq, Option.map_eq_some_iff] at result
  obtain ⟨base, heapNext, next, ⟨ptr, after⟩, run, rfl⟩ := result
  have only : RegionList booted.world.1 booted.vmBase [0xD0000010] := ⟨base, by decide, next⟩
  have reached : Reachable bumpFrames bumpKmalloc bumpStart after [(0x400000, 0x1000)] := by
    refine .vmmAlloc 0x1000 2 (.boot ⟨by simp, fun _ => ⟨by decide, by simp⟩⟩ boot) ?_ run
    intro nodes listed
    cases listed.unique only
    refine ⟨fun _ _ _ _ => rfl, fun _ => ?_⟩
    simp only [bumpKmalloc, heapNext, List.mem_singleton, forall_eq]
    refine ⟨by decide, Set.disjoint_left.mpr fun address => ?_⟩
    rw [mem_span, mem_span, show (0xD0000020 : Word).toNat = 0xD0000020 from rfl,
      show (0xD0000010 : Word).toNat = 0xD0000010 from rfl]
    omega
  obtain ⟨_, ⟨nodes, listed, _, tiled, _⟩, _⟩ := region_list_tiles _ _ _ _ _ reached
  exact ⟨after, nodes, reached, listed, tiled⟩

end ScratchOs.Vmm
