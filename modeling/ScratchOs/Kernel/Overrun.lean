import ScratchOs.Kernel.HeapWindow

namespace ScratchOs

open Data

/-! The page behind a region.

The mapping loop of `vmm_alloc` runs one page too far. While no allocation is
cut short for want of frames, what it maps there belongs to a free region, of
which no more than the first page has been mapped by the region before it. -/

namespace Machine

/-- The page table entry an address is looked up in: its frame and its flags. -/
def pageEntry (machine : Machine) (virtualAddr : Word) : Option Word := (machine.walk virtualAddr).map Prod.snd

theorem pageEntry_isSome (machine : Machine) (virtualAddr : Word) :
    (machine.pageEntry virtualAddr).isSome = (machine.frameOf virtualAddr).isSome := by
  rw [pageEntry, frameOf, Option.isSome_map, Option.isSome_map]

/-- Every page of the region is there with the requested flags, and no page
outside of it is any different, those of the recursive window apart. -/
structure MapsExactly (before after : Machine) (base size flags : Word) : Prop where
  inside : ∀ address ∈ span base.toNat size.toNat, ∃ entry, after.pageEntry address = some entry ∧
    entry &&& 0xFFF = ptePresent ||| flags
  outside : ∀ address ∉ span base.toNat size.toNat, (getPageDirIndex address).toNat < 1023 →
    after.pageEntry address = before.pageEntry address

end Machine

namespace Kernel

open Machine

/-- No request wraps around the end of the address space, and no `vmm_alloc`
runs out of frames once it has a region. Its flags may be any. -/
def Supplied (vmm : Vmm (Heap Machine)) (call : Call) : Prop :=
  Unwrapped platform vmm call ∧ match call with
    | .vmmAlloc size flags => ∀ region, Vmm.ReachesSplit (heapPlatform platform) size vmm region →
        ∀ after, Vmm.vmmAlloc (heapPlatform platform) size flags vmm ≠ some (0, after)
    | _ => True

/-- Nothing is mapped in the window yet, or nothing but the first page of a free region. -/
structure Clear (vmm : Vmm (Heap Machine)) : Prop where
  unset : vmm.vmBase = 0 → ∀ address ∈ vmmWindow, address ∉ vmm.world.world.Mapped
  behind : ∀ nodes, Vmm.RegionList vmm.world.world.heapBytes vmm.vmBase nodes → ∀ node ∈ nodes,
    (Vmm.region vmm.world.world.heapBytes node).free = true → ∀ address ∈ vmmWindow,
      (Vmm.region vmm.world.world.heapBytes node).base.toNat + 4096 ≤ address.toNat →
      address.toNat < (Vmm.region vmm.world.world.heapBytes node).base.toNat +
        (Vmm.region vmm.world.world.heapBytes node).size.toNat → address ∉ vmm.world.world.Mapped

variable {state : State Machine} {vmm after : Vmm (Heap Machine)} {blocks nodes : List Word} {overhang : Word}
  {allocations : List Heap.Live}

/-- The list is the same and the window has no more pages than before. -/
theorem Clear.kept (clear : Clear vmm) (base : after.vmBase = vmm.vmBase)
    (listed : Vmm.RegionList vmm.world.world.heapBytes vmm.vmBase nodes)
    (same : ∀ node ∈ nodes, Vmm.region after.world.world.heapBytes node = Vmm.region vmm.world.world.heapBytes node)
    (fewer : ∀ address ∈ vmmWindow, address ∈ after.world.world.Mapped → address ∈ vmm.world.world.Mapped) :
    Clear after where
  unset unset address inside there := clear.unset (base.symm.trans unset) address inside (fewer address inside there)
  behind nodes' listed' node member free address inside lower upper there := by
    have kept : Vmm.RegionList after.world.world.heapBytes after.vmBase nodes := by
      rw [base]
      exact listed.congr fun node member => by rw [same node member]
    cases listed'.unique kept
    rw [same node member] at free lower upper
    exact clear.behind nodes listed node member free address inside lower upper (fewer address inside there)

/-- The window of the manager is among the pages beside the heap. -/
theorem vmmWindow_kept {before after : Machine} (same : after.otherPages = before.otherPages) :
    ∀ address ∈ vmmWindow, address ∈ after.Mapped → address ∈ before.Mapped := by
  rintro address ⟨_, upper⟩ there
  have other : address ∈ after.otherPages := by
    refine ⟨there, fun inside => ?_⟩
    have high := inside.1
    omega
  rw [same] at other
  exact other.1

/-- Work on heap headers, with pages of the heap added or not. -/
theorem Linked.clear_headers (linked : Linked (viewOn heapWindow) state blocks overhang allocations nodes)
    (clear : Clear state.vmm) {heap : Heap Machine} {blocks' : List Word} {overhang' : Word}
    {allocations' : List Heap.Live} (inv : Heap.Inv (viewOn heapWindow) heap blocks' overhang' allocations')
    (only : RecordsOnly (viewOn heapWindow) state.vmm.world.world heap.world blocks')
    (kept : ∀ node ∈ nodes, (node, vmMetaSize) ∈ allocations')
    (same : heap.world.otherPages = state.vmm.world.world.otherPages) : Clear { state.vmm with world := heap } := by
  refine clear.kept rfl linked.listed (fun node member => ?_) (vmmWindow_kept same)
  have room := (linked.heap.small_mapped (linked.nodesLive node member) (show vmMetaSize.toNat ≤ 48 by decide)).1
  exact Vmm.region_congr room (linked.nodes_kept inv only kept node member)

theorem region_window {live : List Vmm.Live} {node : Word} (inv : Vmm.Inv (viewOn heapWindow).withHeap vmm nodes live)
    (member : node ∈ nodes) :
    0x400000 ≤ (Vmm.region vmm.world.world.heapBytes node).base.toNat ∧
      (Vmm.region vmm.world.world.heapBytes node).base.toNat +
        (Vmm.region vmm.world.world.heapBytes node).size.toNat ≤ 0xC0000000 ∧
      (Vmm.region vmm.world.world.heapBytes node).base.toNat % 4096 = 0 ∧
      (Vmm.region vmm.world.world.heapBytes node).size.toNat % 4096 = 0 := by
  obtain ⟨lower, limit⟩ := inv.layout.bounds member
  exact ⟨lower, limit, inv.layout.tiles.position_mod (fun node member => (inv.layout.pages node member).2) member,
    (inv.layout.pages node member).2⟩

theorem run_limit {base size : Word} (limit : base.toNat + size.toNat ≤ 0xC0000000) :
    base.toNat + 4096 * (size.toNat / 4096 + 1) ≤ 0xC0001000 := by omega

section Attempt

variable {size flags node fresh : Word} {front back : List Word} {middle cut paged : Heap Machine} {mapped : Bool}

/-- The loop maps pages from the first of the region to the one behind it. -/
theorem attempt_pages {live : List Vmm.Live}
    (attempt : Vmm.Attempt (viewOn heapWindow).withHeap size flags vmm live front node fresh back middle cut mapped
      paged) :
    paged.world.Mapped ⊆ cut.world.Mapped ∪
        pageRun ((Vmm.region cut.world.heapBytes node).base.toNat / 4096)
          ((Vmm.region cut.world.heapBytes node).size.toNat / 4096 + 1) ∧
      (mapped = true → (Vmm.region cut.world.heapBytes node).base + Vmm.alignSizeToPageSize size ∈
        paged.world.Mapped) := by
  have member : node ∈ Vmm.cutNodes front node fresh back := Vmm.node_mem_cutNodes
  have fits : (Vmm.alignSizeToPageSize size).toNat ≤ (Vmm.region cut.world.heapBytes node).size.toNat := attempt.fits
  obtain ⟨lower, limit, -⟩ := region_window attempt.inv member
  change _ ≤ (Vmm.region cut.world.heapBytes node).base.toNat at lower
  change (Vmm.region cut.world.heapBytes node).base.toNat + (Vmm.region cut.world.heapBytes node).size.toNat ≤ _ at limit
  have loop : mapPages (heapPlatform platform).toPlatform pageSize flags
      ((Vmm.region cut.world.heapBytes node).size.toNat / 4096 + 1)
      (Vmm.region cut.world.heapBytes node).base cut = some (mapped, paged) := attempt.mapping
  generalize Vmm.region cut.world.heapBytes node = whole at *
  obtain ⟨_, new, covered⟩ := mapPages_otherPages attempt.inv.sound lower (run_limit limit) loop
  refine ⟨new, fun done => covered done ?_⟩
  have aligned := Vmm.alignSizeToPageSize_mod size
  have place : (whole.base + Vmm.alignSizeToPageSize size).toNat =
      whole.base.toNat + (Vmm.alignSizeToPageSize size).toNat := by
    rw [BitVec.toNat_add, Nat.mod_eq_of_lt (by omega)]
  constructor
  · rw [place]
    omega
  · rw [place]
    omega

/-- Marking the region used maps nothing. -/
theorem attempt_marked {live : List Vmm.Live}
    (attempt : Vmm.Attempt (viewOn heapWindow).withHeap size flags vmm live front node fresh back middle cut mapped
      paged)
    {marked : Heap Machine} (store : Vmm.storeFree (heapPlatform platform).toPlatform node false paged = some marked) :
    marked.world.Mapped = paged.world.Mapped := by
  have ready := attempt.paged_inv.regionMapped (@Vmm.node_mem_cutNodes front back node fresh)
  have within : span (node + 12).toNat 1 ⊆ recordSpan node := span_subset_recordSpan ready.room (by decide)
  have place : node + 12 ∈ paged.world.MappedOn heapWindow := ready.mapped (within (by simp))
  obtain ⟨world, result, rfl⟩ := Option.map_eq_some_iff.mp store
  obtain ⟨_, again, _, _, _, same, _⟩ := ExclusiveOn.store8 ready.sound place 0
  cases result.symm.trans again
  exact same.mapped

/-- What is new in the window lies on these pages. -/
theorem attempt_window
    (linked : Linked (viewOn heapWindow) state blocks overhang allocations (front ++ node :: back))
    (attempt : Vmm.Attempt (viewOn heapWindow).withHeap size flags state.vmm state.regions front node fresh back
      middle cut mapped paged)
    {address : Word} (inside : address ∈ vmmWindow) (there : address ∈ paged.world.Mapped)
    (absent : address ∉ state.vmm.world.world.Mapped) :
    (Vmm.region cut.world.heapBytes node).base.toNat / 4096 ≤ address.toNat / 4096 ∧
      address.toNat / 4096 ≤ ((Vmm.region cut.world.heapBytes node).base.toNat +
        (Vmm.region cut.world.heapBytes node).size.toNat) / 4096 := by
  have positive := attempt.size_positive
  have same := linked.split_otherPages attempt.free (by omega) (Vmm.alignSizeToPageSize_mod size) attempt.large
    attempt.run
  rcases (attempt_pages attempt).1 there with old | ⟨first, last⟩
  · exact absurd (vmmWindow_kept same address inside old) absent
  · omega

/-- The page behind the request was not there before. -/
theorem attempt_behind (inv : Vmm.Inv (viewOn heapWindow).withHeap state.vmm (front ++ node :: back) state.regions)
    (clear : Clear state.vmm)
    (attempt : Vmm.Attempt (viewOn heapWindow).withHeap size flags state.vmm state.regions front node fresh back
      middle cut true paged) :
    ((Vmm.region state.vmm.world.world.heapBytes node).base + Vmm.alignSizeToPageSize size).toNat =
        (Vmm.region state.vmm.world.world.heapBytes node).base.toNat + (Vmm.alignSizeToPageSize size).toNat ∧
      (Vmm.region state.vmm.world.world.heapBytes node).base + Vmm.alignSizeToPageSize size ∈
        paged.world.Mapped \ state.vmm.world.world.Mapped := by
  have member : node ∈ front ++ node :: back := by simp
  obtain ⟨lower, limit, -⟩ := region_window inv member
  have large : (Vmm.alignSizeToPageSize size).toNat < (Vmm.region state.vmm.world.world.heapBytes node).size.toNat :=
    attempt.large
  have positive := attempt.size_positive
  have place : ((Vmm.region state.vmm.world.world.heapBytes node).base + Vmm.alignSizeToPageSize size).toNat =
      (Vmm.region state.vmm.world.world.heapBytes node).base.toNat + (Vmm.alignSizeToPageSize size).toNat := by
    rw [BitVec.toNat_add, Nat.mod_eq_of_lt (by omega)]
  have covered := (attempt_pages attempt).2 rfl
  have base : (Vmm.region cut.world.heapBytes node).base = (Vmm.region state.vmm.world.world.heapBytes node).base :=
    (congrArg Vmm.Region.base attempt.split.first).trans (Vmm.cutRegion_base ..)
  rw [base] at covered
  exact ⟨place, covered, clear.behind _ inv.layout.chain node member attempt.free _ ⟨by omega, by omega⟩ (by omega)
    (by omega)⟩

/-- A region that is cut and marked used leaves its neighbours as they were, but for one page. -/
theorem attempt_clear
    (linked : Linked (viewOn heapWindow) state blocks overhang allocations (front ++ node :: back))
    (inv : Vmm.Inv (viewOn heapWindow).withHeap state.vmm (front ++ node :: back) state.regions)
    (clear : Clear state.vmm)
    (attempt : Vmm.Attempt (viewOn heapWindow).withHeap size flags state.vmm state.regions front node fresh back
      middle cut mapped paged)
    {marked : Heap Machine} (store : Vmm.storeFree (heapPlatform platform).toPlatform node false paged = some marked) :
    Clear { state.vmm with world := marked } := by
  obtain ⟨_, used, listed, others⟩ := attempt.marked store
  have member : node ∈ front ++ node :: back := by simp
  refine ⟨fun unset => absurd unset attempt.reaches.1, fun nodes listed' other otherMember free address inside lower
    upper there => ?_⟩
  cases listed'.unique listed
  have different : other ≠ node := by
    rintro rfl
    exact Bool.noConfusion (free.symm.trans used)
  have region : Vmm.region marked.world.heapBytes other = Vmm.region cut.world.heapBytes other :=
    others other otherMember different
  have placed : address ∈ paged.world.Mapped := (attempt_marked attempt store).subset there
  have split : Vmm.SplitRegion state.vmm.world.world.heapBytes cut.world.heapBytes
    (Vmm.alignSizeToPageSize size) front node fresh back := attempt.split
  obtain ⟨base, limit, aligned, whole⟩ := region_window inv member
  have large : (Vmm.alignSizeToPageSize size).toNat < (Vmm.region state.vmm.world.world.heapBytes node).size.toNat :=
    attempt.large
  have pages := attempt_window linked attempt inside placed
  rw [split.first, Vmm.cutRegion_base] at pages
  rw [region] at free lower upper
  rcases Vmm.mem_cutNodes.mp otherMember with old | ⟨rfl, nonnull⟩
  · have rest : other ∈ front ++ back := by
      simp only [List.mem_append, List.mem_cons] at old ⊢
      tauto
    rw [split.kept other rest] at free lower upper
    have before := clear.behind _ inv.layout.chain other old free address inside lower upper
    obtain ⟨lowest, highest⟩ := pages before
    have shorter := Vmm.cutRegion_size_le large fresh
    have apart : (Vmm.region state.vmm.world.world.heapBytes node).base.toNat +
          (Vmm.region state.vmm.world.world.heapBytes node).size.toNat ≤
            (Vmm.region state.vmm.world.world.heapBytes other).base.toNat ∨
        (Vmm.region state.vmm.world.world.heapBytes other).base.toNat +
          (Vmm.region state.vmm.world.world.heapBytes other).size.toNat ≤
            (Vmm.region state.vmm.world.world.heapBytes node).base.toNat :=
      inv.layout.tiles.apart member old (Ne.symm different)
    omega
  · rw [split.second nonnull] at lower upper
    rw [Vmm.cutRegion, if_neg nonnull] at pages
    dsimp only at lower upper pages
    have behind : (Vmm.region state.vmm.world.world.heapBytes node).base.toNat +
        (Vmm.alignSizeToPageSize size).toNat + 4096 ≤ address.toNat := by bv_omega
    have within : address.toNat < (Vmm.region state.vmm.world.world.heapBytes node).base.toNat +
        (Vmm.region state.vmm.world.world.heapBytes node).size.toNat := by bv_omega
    have before := clear.behind _ inv.layout.chain node member attempt.free address inside (by omega) within
    obtain ⟨_, last⟩ := pages before
    omega

end Attempt

/-- Every successful `vmm_alloc` takes its region from the front of a free one. -/
theorem Linked.vmmAlloc_cases (linked : Linked (viewOn heapWindow) state blocks overhang allocations nodes)
    {size flags ptr : Word} (run : Vmm.vmmAlloc (heapPlatform platform) size flags state.vmm = some (ptr, after)) :
    (ptr = 0 ∧ (after = state.vmm ∨ ∃ region, Vmm.ReachesSplit (heapPlatform platform) size state.vmm region)) ∨
    ∃ front node fresh back middle cut paged marked, nodes = front ++ node :: back ∧
      Vmm.Inv (viewOn heapWindow).withHeap state.vmm (front ++ node :: back) state.regions ∧
      Vmm.Attempt (viewOn heapWindow).withHeap size flags state.vmm state.regions front node fresh back middle cut
        true paged ∧
      Vmm.storeFree (heapPlatform platform).toPlatform node false paged = some marked ∧
      ptr = (Vmm.region state.vmm.world.world.heapBytes node).base ∧
      after = { state.vmm with world := marked } := by
  rcases linked.vmm with ⟨unset, _⟩ | ⟨_, inv⟩
  · cases run.symm.trans (Vmm.vmmAlloc_unset _ unset size flags)
    exact .inl ⟨rfl, .inl rfl⟩
  · have keeps := linked.kmallocKeeps heapAllowed_heapWindow (kmallocReady_machine _ _)
    rcases @Vmm.vmmAlloc_cases _ _ _ _ _ _ inv size flags (pagesKeep_heapWindow flags) fun _ _ => keeps with
      ⟨_, result⟩ | ⟨front, node, fresh, back, middle, cut, mapped, paged, rfl, attempt, outcome⟩
    · cases run.symm.trans result
      exact .inl ⟨rfl, .inl rfl⟩
    · rcases outcome with ⟨_, result⟩ | ⟨rfl, marked, store, result⟩
      · cases run.symm.trans result
        exact .inl ⟨rfl, .inr ⟨node, attempt.reaches⟩⟩
      · cases run.symm.trans result
        exact .inr ⟨front, node, fresh, back, middle, cut, paged, marked, rfl, inv, attempt, store, rfl, rfl⟩

theorem Linked.clear_initializeVmm (linked : Linked (viewOn heapWindow) state blocks overhang allocations nodes)
    (clear : Clear state.vmm) (unset : state.vmm.vmBase = 0)
    (run : Vmm.initializeVmm (heapPlatform platform) state.vmm.world = some after) : Clear after := by
  have same := linked.initializeVmm_otherPages run
  have unmapped : ∀ address ∈ vmmWindow, address ∉ after.world.world.Mapped := fun address inside there =>
    clear.unset unset address inside (vmmWindow_kept same address inside there)
  exact ⟨fun _ => unmapped, fun _ _ _ _ _ address inside _ _ => unmapped address inside⟩

/-- One call keeps the rest of every free region clear. -/
theorem Linked.clear_call (linked : Linked (viewOn heapWindow) state blocks overhang allocations nodes)
    (clear : Clear state.vmm) {call : Call} {next : State Machine} (legal : call.Legal state)
    (supplied : Supplied state.vmm call) (run : call.run platform state = some next) : Clear next.vmm := by
  cases call with
  | initializeVmm =>
      obtain ⟨vmm, result, rfl⟩ := Option.map_eq_some_iff.mp run
      exact linked.clear_initializeVmm clear legal result
  | kmalloc nbytes =>
      obtain ⟨ptr, heap, _, _, result, inv, only, _⟩ := Heap.kmalloc_spec heapAllowed_heapWindow linked.heap
        supplied.1 (kmallocReady_machine nbytes _)
      simp only [Call.run, result, Option.map_some, Option.some.injEq] at run
      subst run
      exact linked.clear_headers clear inv only (nodes_held linked.nodesLive)
        (linked.kmalloc_otherPages supplied.1 result)
  | kfree ptr =>
      obtain ⟨⟨ptr, nbytes⟩, client, rfl⟩ := List.mem_map.mp legal
      obtain ⟨live, notNode⟩ := linked.clientsLive _ client
      obtain ⟨heap, _, _, result, inv, only, _⟩ := Heap.kfree_spec linked.heap live
      simp only [Call.run, result, Option.map_some, Option.some.injEq] at run
      subst run
      exact linked.clear_headers clear inv only.toRecordsOnly (nodes_dropped linked.nodesLive notNode)
        (linked.kfree_otherPages live result)
  | vmmAlloc size flags =>
      obtain ⟨⟨ptr, vmm⟩, result, rfl⟩ := Option.map_eq_some_iff.mp run
      rcases linked.vmmAlloc_cases result with ⟨rfl, rfl | ⟨region, reaches⟩⟩ |
        ⟨front, node, fresh, back, middle, cut, paged, marked, rfl, inv, attempt, store, _, rfl⟩
      · exact clear
      · exact absurd result (supplied.2 region reaches vmm)
      · exact attempt_clear linked inv clear attempt store
  | vmmFree ptr =>
      simp only [Call.run, Vmm.vmmFree_eq, Option.map_some, Option.some.injEq] at run
      subst run
      exact clear

theorem Linked.maps_behind (linked : Linked (viewOn heapWindow) state blocks overhang allocations nodes)
    (clear : Clear state.vmm) {size flags ptr : Word}
    (run : Vmm.vmmAlloc (heapPlatform platform) size flags state.vmm = some (ptr, after)) (nonnull : ptr ≠ 0) :
    ptr + Vmm.alignSizeToPageSize size ∈ after.world.world.Mapped \ state.vmm.world.world.Mapped ∧
      ¬ MapsExactly state.vmm.world.world after.world.world ptr (Vmm.alignSizeToPageSize size) flags := by
  rcases linked.vmmAlloc_cases run with ⟨null, _⟩ |
    ⟨front, node, fresh, back, middle, cut, paged, marked, rfl, inv, attempt, store, rfl, rfl⟩
  · exact absurd null nonnull
  · obtain ⟨place, there, absent⟩ := attempt_behind inv clear attempt
    have stays := (attempt_marked attempt store).superset there
    refine ⟨⟨stays, absent⟩, fun exactly => absent ⟨there.1, ?_⟩⟩
    have same := exactly.outside _ (by rw [mem_span, place]; omega) (managed_outside there.1)
    rw [← pageEntry_isSome, ← same, pageEntry_isSome]
    exact stays.2

theorem Reachable.clear {machine : Machine} (tables : machine.KernelTables)
    (booting : Heap.ReadyPages view Heap.initialPages kernelHeapStart machine)
    (enough : 18 ≤ machine.pmm.getNumFreeBlocks) (reached : Reachable platform Supplied machine state) :
    Clear state.vmm := by
  induction reached with
  | boot run =>
      refine ⟨fun _ => initializeKernelHeap_window tables enough run, fun nodes listed node member => ?_⟩
      have empty : nodes = [] := listed.unique rfl
      rw [empty] at member
      simp at member
  | call call previous legal supplied run ih =>
      have consistent := previous.consistent_heapWindow tables booting fun _ _ => And.left
      rcases consistent with ⟨_, base, unset, noClients, noRegions⟩ | ⟨_, _, _, _, linked⟩
      · cases run.symm.trans (run_withoutHeap base unset noClients noRegions legal)
        exact ih
      · exact linked.clear_call ih legal supplied run

/-- Every `vmm_alloc` that returns a region maps the page behind it as well:
it was not there before, and it is not part of what was asked for. -/
theorem vmmAlloc_maps_behind (memory : ByteMemory) (pmm : Pmm) (reserved : ∀ block < 1024, pmm.isBlockUsed block = true)
    (enough : 22 ≤ pmm.getNumFreeBlocks) :
    ∃ machine, initializePaging (Stage2.machine memory pmm) = some machine ∧
      ∀ state, Reachable platform Supplied machine state →
        ∀ (size flags ptr : Word) (after : Vmm (Heap Machine)), flags.toNat < 4096 →
          Vmm.vmmAlloc (heapPlatform platform) size flags state.vmm = some (ptr, after) → ptr ≠ 0 →
          ptr + Vmm.alignSizeToPageSize size ∈ after.world.world.Mapped \ state.vmm.world.world.Mapped ∧
          ¬ MapsExactly state.vmm.world.world after.world.world ptr (Vmm.alignSizeToPageSize size) flags := by
  obtain ⟨machine, booted, tables, left, booting⟩ := @booted_machine memory pmm reserved enough
  refine ⟨machine, booted, fun state reached size flags ptr after _ run nonnull => ?_⟩
  have clear := reached.clear tables booting (by omega)
  rcases reached.consistent_heapWindow tables booting fun _ _ => And.left with ⟨_, _, unset, _⟩ | ⟨_, _, _, _, linked⟩
  · cases run.symm.trans (Vmm.vmmAlloc_unset _ unset size flags)
    exact absurd rfl nonnull
  · exact linked.maps_behind clear run nonnull

/-- A page takes one frame, or two with its table. -/
theorem framesFor_machine {flags virtualAddr : Word} {count : Nat} {heap : Heap Machine}
    (exclusive : heap.world.Exclusive) (small : flags.toNat < 4096) (lower : 0x400000 ≤ virtualAddr.toNat)
    (upper : virtualAddr.toNat + 4096 * count ≤ 0xC0000000) (enough : 2 * count ≤ heap.world.pmm.getNumFreeBlocks) :
    FramesFor (heapPlatform platform).toPlatform pageSize flags count virtualAddr heap := by
  induction count generalizing virtualAddr heap with
  | zero => trivial
  | succ count ih =>
      have nonnull : heap.world.allocBlock.1 ≠ 0 :=
        Pmm.allocBlock_ne_zero exclusive.zeroUsed (Pmm.getNumFreeBlocks_pos.mp (by omega))
      refine ⟨nonnull, fun mapped after run => ?_⟩
      have member : virtualAddr ∈ managed := .inl ⟨lower, by omega⟩
      have tables := exclusive.tables.allocBlock
      have inside := managed_outside member
      have next := @toNat_add_pageSize virtualAddr (by omega)
      have lowerNext : 0x400000 ≤ (virtualAddr + pageSize).toNat := Nat.le_trans lower (Nat.le.intro next.symm)
      have upperNext : (virtualAddr + pageSize).toNat + 4096 * count ≤ 0xC0000000 := by
        rw [next]
        omega
      obtain ⟨⟨done, world⟩, entered, result⟩ := Option.map_eq_some_iff.mp run
      cases result
      cases found : heap.world.allocBlock.2.walk virtualAddr with
      | some entries =>
          have refused := @mapAddress_of_mapped heap.world.allocBlock.2 virtualAddr heap.world.allocBlock.1 flags
            tables inside (by rw [found]; rfl)
          cases entered.symm.trans refused
          refine ih (exclusive.giveBack nonnull) lowerNext upperNext ?_
          change 2 * count ≤ (heap.world.pmm.allocBlock.2.freeBlock heap.world.pmm.allocBlock.1).getNumFreeBlocks
          rw [Pmm.freeBlock_allocBlock_self nonnull]
          omega
      | none =>
          have granted := @mapAddress_of_unmapped heap.world.allocBlock.2 virtualAddr heap.world.allocBlock.1 flags tables
            inside (exclusive.newTable nonnull _) found
          cases entered.symm.trans granted
          refine ih (exclusive.mapped member small nonnull) lowerNext upperNext ?_
          have left : heap.world.allocBlock.2.pmm.getNumFreeBlocks = heap.world.pmm.getNumFreeBlocks - 1 :=
            Pmm.getNumFreeBlocks_allocBlock
          change 2 * count ≤ (heap.world.allocBlock.2.withTable (getPageDirIndex virtualAddr)).pmm.getNumFreeBlocks
          rw [getNumFreeBlocks_withTable, left]
          split
          · omega
          · omega

/-- With four frames left the first region is handed out. -/
theorem Fresh.vmmAlloc_granted {vmm : Vmm (Heap Machine)} (fresh : Fresh vmm 4) {blocks nodes : List Word}
    {overhang : Word} {allocations : List Heap.Live}
    (linked : Linked view ⟨vmm, [], []⟩ blocks overhang allocations nodes) :
    ∃ after, Vmm.vmmAlloc (heapPlatform platform) 0x1000 2 vmm = some (0x400000, after) := by
  obtain ⟨freeRegion, reaches⟩ := fresh.reaches
  have inv : Vmm.Inv view.withHeap vmm nodes [] := (linked.vmm.resolve_left fun unset => fresh.base unset.1).2
  have ready : CallReady view vmm (.vmmAlloc 0x1000 2) := callReady_machine (show (2 : Word).toNat < 4096 by decide)
  have keeps : Vmm.KmallocKeeps view.withHeap nodes vmm.world :=
    linked.kmallocKeeps heapAllowed (kmallocReady_machine _ _)
  rcases @Vmm.vmmAlloc_cases _ _ _ _ _ _ inv 0x1000 2 ready.1 fun _ _ => keeps with
    ⟨idle, _⟩ | ⟨front, node, storage, back, middle, cut, mapped, paged, rfl, attempt, outcome⟩
  · exact absurd reaches (idle freeRegion)
  · have only : front ++ node :: back = [vmm.vmBase] := inv.layout.chain.unique fresh.inv.layout.chain
    obtain rfl : node = vmm.vmBase := List.mem_singleton.mp (only ▸ by simp)
    obtain ⟨block, nonnull, found⟩ := fresh.serves
    have stored : storage ≠ 0 := linked.heap.kmalloc_ne_zero heapAllowed (by decide)
      (by rw [found]; simpa using nonnull) attempt.allocated
    have region : Vmm.region (view.withHeap.bytes vmm.world) vmm.vmBase =
        { base := virtualMemoryStart, size := virtualMemoryEnd - virtualMemoryStart, next := 0, free := true } :=
      fresh.region
    have first := attempt.split.first
    rw [region, Vmm.cutRegion, if_neg stored] at first
    have loop := attempt.mapping
    rw [first] at loop
    dsimp only at loop
    rw [show (Vmm.alignSizeToPageSize 0x1000).toNat / 4096 + 1 = 2 by decide] at loop
    have enough : 2 * 2 ≤ cut.world.pmm.getNumFreeBlocks := by
      rw [fresh.cut_pmm attempt.run, fresh.frames]
    have frames := @framesFor_machine 2 virtualMemoryStart 2 cut attempt.inv.sound (by decide) (by decide)
      (by decide) enough
    have done : mapped = true := mapPages_of_framesFor frames loop
    rcases outcome with ⟨failed, _⟩ | ⟨_, after, _, run⟩
    · rw [done] at failed
      contradiction
    · rw [region] at run
      exact ⟨_, run⟩

/-- A boot with 26 frames leaves four, enough for two pages. -/
theorem vmmAlloc_booted_granted : ∃ machine vmm after blocks overhang allocations nodes,
    initializePaging (Stage2.machine (fun _ => 0) (framesLeft 26 (by decide))) = some machine ∧
      Reachable platform Supplied machine ⟨vmm, [], []⟩ ∧ Fresh vmm 4 ∧
      Linked (viewOn heapWindow) ⟨vmm, [], []⟩ blocks overhang allocations nodes ∧
      Vmm.vmmAlloc (heapPlatform platform) 0x1000 2 vmm = some (0x400000, after) := by
  obtain ⟨machine, vmm, booted, tables, booting, reached, fresh⟩ := @fresh_booted 4 (fun _ => 0)
    (framesLeft 26 (by decide)) framesLeft_reserved (by decide +kernel)
    (fun vmm call => Modest vmm call ∧ Supplied vmm call) fun _ => ⟨trivial, trivial, trivial⟩
  obtain ⟨_, _, _, _, modest⟩ := fresh.linked
    (reached.consistent heapAllowed tables.exclusive booting fun _ _ ready => callReady_machine ready.1)
  have supplied : Reachable platform Supplied machine ⟨vmm, [], []⟩ := reached.mono fun _ _ => And.right
  obtain ⟨blocks, overhang, allocations, nodes, linked⟩ := fresh.linked
    (supplied.consistent_heapWindow tables booting fun _ _ => And.left)
  obtain ⟨after, run⟩ := fresh.vmmAlloc_granted modest
  exact ⟨machine, vmm, after, blocks, overhang, allocations, nodes, booted, supplied, fresh, linked, run⟩

/-- One page is asked for, and two are mapped. -/
theorem vmmAlloc_maps_two_pages : ∃ machine state after,
    initializePaging (Stage2.machine (fun _ => 0) (framesLeft 26 (by decide))) = some machine ∧
      Reachable platform Supplied machine state ∧
      Vmm.vmmAlloc (heapPlatform platform) 0x1000 2 state.vmm = some (0x400000, after) ∧
      ¬ MapsExactly state.vmm.world.world after.world.world 0x400000 0x1000 2 := by
  obtain ⟨machine, vmm, after, _, _, _, _, booted, reached, fresh, linked, run⟩ := vmmAlloc_booted_granted
  have clear : Clear vmm := ⟨fun _ => fresh.unmapped, fun _ _ _ _ _ address inside _ _ => fresh.unmapped address inside⟩
  have both := (linked.maps_behind clear run (by decide)).2
  rw [show Vmm.alignSizeToPageSize 0x1000 = 0x1000 by decide] at both
  exact ⟨machine, _, after, booted, reached, run, both⟩

theorem vmmAlloc_maps_behind_onePage : ∃ machine state after,
    initializePaging (Stage2.machine (fun _ => 0) (framesLeft 26 (by decide))) = some machine ∧
      Reachable platform Supplied machine state ∧
      Vmm.vmmAlloc (heapPlatform platform) 0x1000 2 state.vmm = some (0x400000, after) ∧
      0x401000 ∈ after.world.world.Mapped \ state.vmm.world.world.Mapped := by
  obtain ⟨machine, vmm, after, _, _, _, _, booted, reached, _, _, run⟩ := vmmAlloc_booted_granted
  obtain ⟨again, rebooted, behind⟩ := vmmAlloc_maps_behind (fun _ => 0) (framesLeft 26 (by decide)) framesLeft_reserved
    (by decide +kernel)
  cases booted.symm.trans rebooted
  have mapped := (behind _ reached 0x1000 2 0x400000 after (by decide) run (by decide)).1
  rw [show (0x400000 : Word) + Vmm.alignSizeToPageSize 0x1000 = 0x401000 by decide] at mapped
  exact ⟨machine, _, after, booted, reached, run, mapped⟩

end Kernel

end ScratchOs
