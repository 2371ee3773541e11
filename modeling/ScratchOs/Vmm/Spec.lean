import ScratchOs.Vmm.Region

namespace ScratchOs.Vmm

open Data

variable {σ : Type} {platform : HeapPlatform σ}

/-- A pointer `vmm_alloc` returned, with the size it was asked for. -/
abbrev Live := Word × Word

/-- The manager's invariant: the region list is laid out over mapped memory,
and every live pointer is the base of a used region that is large enough. -/
structure Inv (view : FlatView platform.toPlatform) (vmm : Vmm σ) (nodes : List Word) (live : List Live) :
    Prop where
  sound : view.Sound vmm.world
  layout : Layout (view.bytes vmm.world) vmm.vmBase nodes
  mapped : ∀ node ∈ nodes, recordSpan node ⊆ view.Mapped vmm.world
  owner : ∀ entry ∈ live, ∃ node ∈ nodes, (region (view.bytes vmm.world) node).base = entry.1 ∧
    (region (view.bytes vmm.world) node).free = false ∧
    (alignSizeToPageSize entry.2).toNat ≤ (region (view.bytes vmm.world) node).size.toNat
  nodup : (live.map Prod.fst).Nodup

/-- What the manager relies on when it calls `kmalloc` for a node: whether or
not there is storage, the nodes in use keep their bytes, and storage that is
returned belongs to none of them. -/
def KmallocKeeps (view : FlatView platform.toPlatform) (nodes : List Word) (world : σ) : Prop :=
  ∃ ptr after, platform.kmalloc vmMetaSize world = some (ptr, after) ∧ view.Sound after ∧
    view.Mapped world ⊆ view.Mapped after ∧
    (∀ node ∈ nodes, Set.EqOn (view.bytes after) (view.bytes world) (recordSpan node)) ∧
    (ptr ≠ 0 → RegionMapped view after ptr ∧ ∀ node ∈ nodes, Disjoint (recordSpan ptr) (recordSpan node))

/-- `vmm_alloc` gets as far as splitting a region. -/
def ReachesSplit (platform : HeapPlatform σ) (size : Word) (vmm : Vmm σ) (freeRegion : Word) : Prop :=
  vmm.vmBase ≠ 0 ∧ alignSizeToPageSize size ≠ 0 ∧
    findFirstFreeVirtualMemoryRegion platform (alignSizeToPageSize size) vmm = some freeRegion ∧
    freeRegion ≠ 0 ∧ ∃ regionSize, loadSize platform.toPlatform freeRegion vmm.world = some regionSize ∧
      ¬ regionSize < alignSizeToPageSize size + bufferSize

/-- Mapping a page of the window, or the one behind it, leaves what was readable alone. -/
def PagesKeep (view : FlatView platform.toPlatform) (flags : Word) : Prop :=
  ∀ (virtualAddr : Word) (world : σ), 0x400000 ≤ virtualAddr.toNat → virtualAddr.toNat ≤ 0xC0000000 →
    view.Sound world → RoundKeeps view flags virtualAddr world

/-- The region `find_first_free_virtual_memory_region` is to find. -/
def firstFit (memory : ByteMemory) (size : Word) (nodes : List Word) : Option Word :=
  nodes.find? fun node => (region memory node).free && decide (size ≤ (region memory node).size)

theorem firstFit_some {memory : ByteMemory} {size node : Word} {nodes : List Word}
    (found : firstFit memory size nodes = some node) :
    node ∈ nodes ∧ (region memory node).free = true ∧ size.toNat ≤ (region memory node).size.toNat := by
  have suits := List.find?_some found
  simp only [Bool.and_eq_true, decide_eq_true_eq, BitVec.le_def] at suits
  exact ⟨List.mem_of_find?_eq_some found, suits⟩

/-- The region that is split; it stays whole if `kmalloc` had no node for the second part. -/
def cutRegion (first : Region) (size fresh : Word) : Region :=
  if fresh = 0 then first else { first with size := size, next := fresh }

def cutNodes (front : List Word) (node fresh : Word) (back : List Word) : List Word :=
  if fresh = 0 then front ++ node :: back else front ++ node :: fresh :: back

theorem cutRegion_base (first : Region) (size fresh : Word) : (cutRegion first size fresh).base = first.base := by
  unfold cutRegion
  split
  · rfl
  · rfl

theorem cutRegion_free (first : Region) (size fresh : Word) : (cutRegion first size fresh).free = first.free := by
  unfold cutRegion
  split
  · rfl
  · rfl

theorem cutRegion_size_le {first : Region} {size : Word} (large : size.toNat < first.size.toNat) (fresh : Word) :
    (cutRegion first size fresh).size.toNat ≤ first.size.toNat := by
  unfold cutRegion
  split
  · exact Nat.le_refl _
  · exact Nat.le_of_lt large

theorem node_mem_cutNodes {front back : List Word} {node fresh : Word} : node ∈ cutNodes front node fresh back := by
  unfold cutNodes
  split
  · simp
  · simp

theorem mem_cutNodes {front back : List Word} {node fresh other : Word} :
    other ∈ cutNodes front node fresh back ↔ other ∈ front ++ node :: back ∨ other = fresh ∧ fresh ≠ 0 := by
  unfold cutNodes
  split
  · next null => simp [null]
  · next nonnull =>
      simp only [List.mem_append, List.mem_cons, nonnull, ne_eq, not_false_eq_true, and_true]
      tauto

/-- What `split_virtual_memory_region` leaves on the list. -/
structure SplitRegion (before after : ByteMemory) (size : Word) (front : List Word) (node fresh : Word)
    (back : List Word) : Prop where
  first : region after node = cutRegion (region before node) size fresh
  second : fresh ≠ 0 → region after fresh =
    { base := (region before node).base + size, size := (region before node).size - size,
      next := (region before node).next, free := true }
  kept : ∀ other ∈ front ++ back, region after other = region before other

theorem splitVirtualMemoryRegion_refused {node size regionSize : Word} {world middle : σ}
    (load : loadSize platform.toPlatform node world = some regionSize) (large : ¬ regionSize ≤ size)
    (refused : platform.kmalloc vmMetaSize world = some (0, middle)) :
    splitVirtualMemoryRegion platform node size world = some middle := by
  simp only [splitVirtualMemoryRegion, load, large, refused, Option.bind_eq_bind, Option.bind_some, if_true, if_false]

variable {view : FlatView platform.toPlatform} {vmm : Vmm σ} {nodes front back : List Word}
  {live : List Live} {node : Word} {world after : σ}

namespace Inv

theorem regionMapped (inv : Inv view vmm nodes live) (member : node ∈ nodes) :
    RegionMapped view vmm.world node :=
  ⟨inv.sound, inv.layout.room node member, inv.mapped node member⟩

/-- A live pointer never names a free region. -/
theorem pointer_fresh (inv : Inv view vmm nodes live) (member : node ∈ nodes)
    (free : (region (view.bytes vmm.world) node).free = true) :
    (region (view.bytes vmm.world) node).base ∉ live.map Prod.fst := by
  intro listed
  obtain ⟨entry, entryMember, pointer⟩ := List.mem_map.mp listed
  obtain ⟨owner, ownerMember, base, used, _⟩ := inv.owner entry entryMember
  have same : owner = node := by
    by_contra different
    have order := inv.layout.tiles.apart ownerMember member different
    have positive := inv.layout.pages owner ownerMember
    have positive' := inv.layout.pages node member
    rw [base, pointer] at order
    omega
  rw [same, free] at used
  contradiction

theorem base_ne_zero (inv : Inv view vmm nodes live) (member : node ∈ nodes) :
    (region (view.bytes vmm.world) node).base ≠ 0 := by
  have bounds := inv.layout.bounds member
  intro zero
  rw [zero] at bounds
  simp at bounds

/-- Whatever leaves the nodes readable and unchanged keeps the invariant. -/
theorem of_same (inv : Inv view vmm nodes live) (sound : view.Sound after)
    (mapped : view.Mapped vmm.world ⊆ view.Mapped after)
    (same : ∀ node ∈ nodes, Set.EqOn (view.bytes after) (view.bytes vmm.world) (recordSpan node)) :
    Inv view { vmm with world := after } nodes live := by
  have equal : ∀ node ∈ nodes, region (view.bytes after) node = region (view.bytes vmm.world) node :=
    fun node member => region_congr (inv.layout.room node member) (same node member)
  refine ⟨sound, inv.layout.setFree ?_, fun node member => (inv.mapped node member).trans mapped, ?_, inv.nodup⟩
  · intro node member
    rw [equal node member]
    exact ⟨rfl, rfl, rfl⟩
  · intro entry entryMember
    obtain ⟨owner, ownerMember, base, used, fits⟩ := inv.owner entry entryMember
    exact ⟨owner, ownerMember, by rw [equal owner ownerMember]; exact ⟨base, used, fits⟩⟩

theorem grown (inv : Inv view vmm nodes live) (growth : Grown view vmm.world after) :
    Inv view { vmm with world := after } nodes live :=
  inv.of_same growth.sound growth.mapped fun node member => growth.bytes.mono (inv.mapped node member)

/-- The search finds the first free region that is large enough. -/
theorem find_eq (inv : Inv view vmm nodes live) (size : Word) :
    findFirstFreeVirtualMemoryRegion platform size vmm =
      some ((firstFit (view.bytes vmm.world) size nodes).getD 0) :=
  inv.layout.chain.findNode_eq inv.layout.length_lt_walkFuel fun _ member =>
    ⟨(inv.regionMapped member).regionFits size, (inv.regionMapped member).loadNext⟩

theorem find (inv : Inv view vmm nodes live) (size : Word) :
    findFirstFreeVirtualMemoryRegion platform size vmm = some 0 ∨
    ∃ node ∈ nodes, findFirstFreeVirtualMemoryRegion platform size vmm = some node ∧ node ≠ 0 ∧
      (region (view.bytes vmm.world) node).free = true ∧
      size.toNat ≤ (region (view.bytes vmm.world) node).size.toNat := by
  have walked := inv.find_eq size
  cases found : firstFit (view.bytes vmm.world) size nodes with
  | none => exact .inl (by rw [walked, found]; rfl)
  | some node =>
      obtain ⟨member, suits⟩ := firstFit_some found
      exact .inr ⟨node, member, by rw [walked, found]; rfl, inv.layout.chain.ne_null member, suits⟩

/-- Splitting a free region: with a node for the second part if `kmalloc` has
one, otherwise not at all. -/
theorem split (inv : Inv view vmm (front ++ node :: back) live) {size : Word}
    (keeps : KmallocKeeps view (front ++ node :: back) vmm.world)
    (free : (region (view.bytes vmm.world) node).free = true) (positive : 0 < size.toNat)
    (aligned : size.toNat % 4096 = 0) (large : size.toNat < (region (view.bytes vmm.world) node).size.toNat) :
    ∃ fresh middle after, platform.kmalloc vmMetaSize vmm.world = some (fresh, middle) ∧
      splitVirtualMemoryRegion platform node size vmm.world = some after ∧
      Inv view { vmm with world := after } (cutNodes front node fresh back) live ∧
      RecordsWritten view middle after (cutNodes front node fresh back) ∧
      SplitRegion (view.bytes vmm.world) (view.bytes after) size front node fresh back := by
  have member : node ∈ front ++ node :: back := by simp
  obtain ⟨fresh, middle, allocated, soundMiddle, grows, same, storage⟩ := keeps
  have invMiddle := inv.of_same soundMiddle grows same
  have unchanged := region_congr (inv.layout.room node member) (same node member)
  have splits : ¬ (region (view.bytes vmm.world) node).size ≤ size := by
    rw [BitVec.le_def]
    omega
  by_cases null : fresh = 0
  · have listed : ∀ other ∈ front ++ back, other ∈ front ++ node :: back := fun other rest =>
      List.perm_middle.mem_iff.mpr (.tail _ rest)
    refine ⟨fresh, middle, middle, allocated, ?_, by rw [cutNodes, if_pos null]; exact invMiddle,
      ⟨⟨subset_rfl, fun _ _ _ => rfl, rfl⟩, subset_rfl⟩, by rw [unchanged, cutRegion, if_pos null],
      fun nonnull => absurd null nonnull,
      fun other rest => region_congr (inv.layout.room other (listed other rest)) (same other (listed other rest))⟩
    rw [null] at allocated
    exact splitVirtualMemoryRegion_refused (inv.regionMapped member).loadSize splits allocated
  · obtain ⟨freshReady, apart⟩ := storage null
    have nodeReady := invMiddle.regionMapped member
    rw [← unchanged] at free large splits
    have freshApart : recordSpan node ⊆ (recordSpan fresh)ᶜ := Set.disjoint_right.mp (apart node member)
    have nodeApart : recordSpan fresh ⊆ (recordSpan node)ᶜ := Set.disjoint_left.mp (apart node member)
    -- The stores of the source, in its order.
    obtain ⟨world1, store1, stored1⟩ :=
      freshReady.storeSize ((region (view.bytes middle) node).size - size)
    have fresh1 := freshReady.persist stored1
    have node1 := nodeReady.persist stored1
    obtain ⟨world2, store2, stored2⟩ := fresh1.storeBase ((region (view.bytes world1) node).base + size)
    have fresh2 := fresh1.persist stored2
    have node2 := node1.persist stored2
    obtain ⟨world3, store3, stored3⟩ := fresh2.storeNext (region (view.bytes world2) node).next
    have fresh3 := fresh2.persist stored3
    obtain ⟨world4, store4, stored4⟩ := fresh3.storeFree true
    have node4 := (node2.persist stored3).persist stored4
    obtain ⟨world5, store5, stored5⟩ := node4.storeSize size
    have node5 := node4.persist stored5
    obtain ⟨world6, store6, stored6⟩ := node5.storeNext fresh
    have freshStored := ((stored1.trans stored2).trans stored3).trans stored4
    have nodeStored := stored5.trans stored6
    have nodeAt1 := region_congr nodeReady.room (stored1.outside.mono freshApart)
    have nodeAt2 := region_congr nodeReady.room ((stored1.trans stored2).outside.mono freshApart)
    have nodeAt4 := region_congr nodeReady.room (freshStored.outside.mono freshApart)
    have nodeFinal : region (view.bytes world6) node =
        { region (view.bytes middle) node with size := size, next := fresh } := by
      rw [stored6.stored, stored5.stored, nodeAt4]
    have freshFinal : region (view.bytes world6) fresh =
        { base := (region (view.bytes middle) node).base + size,
          size := (region (view.bytes middle) node).size - size,
          next := (region (view.bytes middle) node).next, free := true } := by
      rw [region_congr freshReady.room (nodeStored.outside.mono nodeApart), stored4.stored, stored3.stored,
        stored2.stored, stored1.stored, nodeAt1, nodeAt2]
    have outside : Set.EqOn (view.bytes world6) (view.bytes middle) (recordSpan node ∪ recordSpan fresh)ᶜ := by
      rw [Set.compl_union]
      exact (nodeStored.outside.mono Set.inter_subset_left).trans
        (freshStored.outside.mono Set.inter_subset_right)
    have mapped : view.Mapped world6 = view.Mapped middle := nodeStored.mapped.trans freshStored.mapped
    have otherNe : ∀ other ∈ front ++ back, other ≠ node := by
      have moved : (node :: (front ++ back)).Nodup := List.perm_middle.nodup_iff.mp inv.layout.nodup
      rintro other otherMember rfl
      exact (List.nodup_cons.mp moved).1 otherMember
    have listed : ∀ other ∈ front ++ back, other ∈ front ++ node :: back := fun other rest =>
      List.perm_middle.mem_iff.mpr (.tail _ rest)
    have kept : ∀ other ∈ front ++ back, region (view.bytes world6) other = region (view.bytes middle) other := by
      intro other otherMember
      apply region_congr (inv.layout.room other (listed other otherMember)) (outside.mono _)
      rw [Set.compl_union]
      exact Set.subset_inter
        (Set.disjoint_right.mp (inv.layout.storage_apart member (listed other otherMember)
          (otherNe other otherMember).symm))
        (Set.disjoint_right.mp (apart other (listed other otherMember)))
    have layout := invMiddle.layout.split positive aligned large null freshReady.room apart
      (by rw [nodeFinal]; exact ⟨rfl, rfl, rfl⟩) (by rw [freshFinal]; exact ⟨rfl, rfl, rfl⟩) kept
    have split : SplitRegion (view.bytes vmm.world) (view.bytes world6) size front node fresh back := by
      refine ⟨by rw [nodeFinal, unchanged, cutRegion, if_neg null], fun _ => by rw [freshFinal, unchanged], ?_⟩
      intro other rest
      rw [kept other rest]
      exact region_congr (inv.layout.room other (listed other rest)) (same other (listed other rest))
    have run : splitVirtualMemoryRegion platform node size vmm.world = some world6 := by
      rw [unchanged] at splits
      simp only [splitVirtualMemoryRegion, (inv.regionMapped member).loadSize, splits, allocated, null,
        nodeReady.loadSize, store1, node1.loadBase, store2, node2.loadNext, store3, store4, store5, store6,
        Option.bind_eq_bind, Option.bind_some, if_false]
    refine ⟨fresh, middle, world6, allocated, run, ?_⟩
    rw [show cutNodes front node fresh back = front ++ node :: fresh :: back from if_neg null]
    refine ⟨⟨stored6.sound, layout, ?_, ?_, inv.nodup⟩,
      ⟨⟨mapped.superset, ?_, nodeStored.globals.trans freshStored.globals⟩, mapped.subset⟩, split⟩
    · intro other otherMember
      dsimp only
      rw [mapped]
      by_cases isFresh : other = fresh
      · rw [isFresh]
        exact freshReady.mapped
      · refine invMiddle.mapped other ?_
        simp only [List.mem_append, List.mem_cons] at otherMember ⊢
        tauto
    · intro entry entryMember
      obtain ⟨owner, ownerMember, base, used, fits⟩ := invMiddle.owner entry entryMember
      dsimp only at base used fits
      have different : owner ≠ node := by
        rintro rfl
        rw [free] at used
        contradiction
      have rest : owner ∈ front ++ back := by
        simp only [List.mem_append, List.mem_cons] at ownerMember ⊢
        tauto
      refine ⟨owner, ?_, by rw [kept owner rest]; exact ⟨base, used, fits⟩⟩
      simp only [List.mem_append, List.mem_cons] at rest ⊢
      tauto
    · intro address _ elsewhere
      apply outside
      rw [Set.mem_compl_iff, Set.mem_union, not_or]
      exact ⟨elsewhere node (by simp), elsewhere fresh (by simp)⟩

end Inv

/-- Mapping does not touch the region's node, so the loop visits the pages of
the region it started with and the one behind it. -/
theorem mapRegionPages_eq {flags base size : Word} (pages : PagesKeep view flags)
    (limit : base.toNat + size.toNat ≤ 0xC0000000) {count fuel : Nat} {virtualAddr : Word}
    (ready : RegionMapped view world node) (sameBase : (region (view.bytes world) node).base = base)
    (sameSize : (region (view.bytes world) node).size = size) (lower : 0x400000 ≤ virtualAddr.toNat)
    (place : virtualAddr.toNat + 4096 * count = base.toNat + size.toNat + 4096) (enough : count < fuel) :
    mapRegionPages platform node flags fuel virtualAddr world =
      mapPages platform.toPlatform pageSize flags count virtualAddr world := by
  have total : (size + base).toNat = base.toNat + size.toNat := by bv_omega
  induction count generalizing fuel virtualAddr world with
  | zero =>
      obtain ⟨fuel, rfl⟩ := Nat.exists_eq_succ_of_ne_zero (Nat.ne_of_gt enough)
      have behind : ¬ virtualAddr ≤ size + base := by
        rw [BitVec.le_def]
        omega
      simp only [mapRegionPages, ready.loadSize, ready.loadBase, sameBase, sameSize, behind, mapPages,
        Option.bind_eq_bind, Option.bind_some, if_false]
  | succ count ih =>
      obtain ⟨fuel, rfl⟩ := Nat.exists_eq_succ_of_ne_zero (Nat.ne_of_gt (Nat.zero_lt_of_lt enough))
      have inside : virtualAddr ≤ size + base := by
        rw [BitVec.le_def]
        omega
      rw [mapRegionPages, mapPages]
      simp only [ready.loadSize, ready.loadBase, sameBase, sameSize, inside, Option.bind_eq_bind,
        Option.bind_some, if_true]
      by_cases null : (platform.allocBlock world).1 = 0
      · simp only [null, if_true]
      · obtain ⟨mapped, next, mapping, growth⟩ := pages virtualAddr world lower (by omega) ready.sound null
        have same := region_congr ready.room (growth.bytes.mono ready.mapped)
        have advance : (virtualAddr + pageSize).toNat = virtualAddr.toNat + 4096 := by
          unfold pageSize
          bv_omega
        simp only [null, if_false, mapping, Option.bind_some]
        exact ih ⟨growth.sound, ready.room, ready.mapped.trans growth.mapped⟩ (by rw [same, sameBase])
          (by rw [same, sameSize]) (by omega) (by omega) (by omega)

/-- Marking a free region used and handing out its base. -/
theorem Inv.take (inv : Inv view vmm nodes live) (member : node ∈ nodes) {size : Word}
    (free : (region (view.bytes vmm.world) node).free = true)
    (fits : (alignSizeToPageSize size).toNat ≤ (region (view.bytes vmm.world) node).size.toNat) :
    ∃ after, storeFree platform.toPlatform node false vmm.world = some after ∧
      loadBase platform.toPlatform node after = some (region (view.bytes vmm.world) node).base ∧
      Inv view { vmm with world := after } nodes
        (((region (view.bytes vmm.world) node).base, size) :: live) ∧
      RecordsOnly view vmm.world after nodes := by
  obtain ⟨after, store, stored⟩ := (inv.regionMapped member).storeFree false
  have ready := (inv.regionMapped member).persist stored
  have others : ∀ other ∈ nodes, other ≠ node →
      region (view.bytes after) other = region (view.bytes vmm.world) other := fun other otherMember =>
    inv.layout.region_other member stored.outside otherMember
  refine ⟨after, store, by rw [ready.loadBase, stored.stored], ⟨stored.sound, ?_, ?_, ?_, ?_⟩,
    stored.recordsOnly member⟩
  · apply inv.layout.setFree
    intro other otherMember
    by_cases same : other = node
    · rw [same, stored.stored]
      exact ⟨rfl, rfl, rfl⟩
    · rw [others other otherMember same]
      exact ⟨rfl, rfl, rfl⟩
  · intro other otherMember
    dsimp only
    rw [stored.mapped]
    exact inv.mapped other otherMember
  · intro entry entryMember
    rcases List.mem_cons.mp entryMember with rfl | entryMember
    · refine ⟨node, member, ?_⟩
      rw [stored.stored]
      exact ⟨rfl, rfl, fits⟩
    · obtain ⟨owner, ownerMember, base, used, large⟩ := inv.owner entry entryMember
      have different : owner ≠ node := by
        rintro rfl
        rw [free] at used
        contradiction
      refine ⟨owner, ownerMember, ?_⟩
      rw [others owner ownerMember different]
      exact ⟨base, used, large⟩
  · exact List.nodup_cons.mpr ⟨inv.pointer_fresh member free, inv.nodup⟩

/-- A client holds the pointer unless it is `NULL`. -/
def held (ptr size : Word) (live : List Live) : List Live := if ptr = 0 then live else (ptr, size) :: live

/-- What is left of the clients' pointers after one is given back. -/
def dropped (ptr : Word) (live : List Live) : List Live := live.filter fun entry => entry.1 ≠ ptr

theorem Inv.drop (inv : Inv view vmm nodes live) (ptr : Word) : Inv view vmm nodes (dropped ptr live) where
  sound := inv.sound
  layout := inv.layout
  mapped := inv.mapped
  owner entry member := inv.owner entry (List.mem_filter.mp member).1
  nodup := inv.nodup.sublist (List.Sublist.map _ List.filter_sublist)

theorem alignSizeToPageSize_mod (size : Word) : (alignSizeToPageSize size).toNat % 4096 = 0 := by
  unfold alignSizeToPageSize pageSize
  rw [BitVec.toNat_mul, Nat.mod_mod_of_dvd _ (by decide)]
  exact Nat.mul_mod_left ..

/-- `initialize_vmm` makes one free region of the whole window, if it gets a node. -/
theorem initializeVmm_spec (keeps : KmallocKeeps view [] world) :
    ∃ vmm middle, initializeVmm platform world = some vmm ∧
      platform.kmalloc vmMetaSize world = some (vmm.vmBase, middle) ∧
      RecordsWritten view middle vmm.world [vmm.vmBase] ∧
      (vmm.vmBase = 0 ∧ vmm.world = middle ∨ vmm.vmBase ≠ 0 ∧ Inv view vmm [vmm.vmBase] [] ∧
        region (view.bytes vmm.world) vmm.vmBase =
          { base := virtualMemoryStart, size := virtualMemoryEnd - virtualMemoryStart, next := 0, free := true }) := by
  obtain ⟨ptr, middle, allocated, _, _, _, storage⟩ := keeps
  by_cases null : ptr = 0
  · refine ⟨⟨ptr, middle⟩, middle, ?_, allocated, ⟨⟨subset_rfl, fun _ _ _ => rfl, rfl⟩, subset_rfl⟩,
      .inl ⟨null, rfl⟩⟩
    simp only [initializeVmm, allocated, null, Option.bind_eq_bind, Option.bind_some, if_true]
  · obtain ⟨ready, _⟩ := storage null
    obtain ⟨world1, store1, stored1⟩ := ready.storeBase virtualMemoryStart
    have ready1 := ready.persist stored1
    obtain ⟨world2, store2, stored2⟩ := ready1.storeSize (virtualMemoryEnd - virtualMemoryStart)
    have ready2 := ready1.persist stored2
    obtain ⟨world3, store3, stored3⟩ := ready2.storeFree true
    have ready3 := ready2.persist stored3
    obtain ⟨world4, store4, stored4⟩ := ready3.storeNext 0
    have stored := ((stored1.trans stored2).trans stored3).trans stored4
    have final : region (view.bytes world4) ptr =
        { base := virtualMemoryStart, size := virtualMemoryEnd - virtualMemoryStart, next := 0, free := true } := by
      rw [stored4.stored, stored3.stored, stored2.stored, stored1.stored]
    refine ⟨⟨ptr, world4⟩, middle, ?_, allocated, stored.recordsWritten (by simp), .inr ⟨null, ⟨stored4.sound,
      Layout.initial null ready.room final, ?_, by simp, by simp⟩, final⟩⟩
    · simp only [initializeVmm, allocated, null, store1, store2, store3, store4, Option.bind_eq_bind,
        Option.bind_some, if_false]
    · simp only [List.mem_singleton, forall_eq, stored.mapped]
      exact ready.mapped

theorem getTotalSizeFrom_eq {fuel : Nat} {head total : Word}
    (chain : RegionList (view.bytes world) head nodes) (ready : ∀ node ∈ nodes, RegionMapped view world node)
    (enough : nodes.length < fuel) :
    getTotalSizeFrom platform world fuel head total =
      some (total + BitVec.ofNat 32 (nodes.map fun node => (region (view.bytes world) node).size.toNat).sum) := by
  induction nodes generalizing fuel head total with
  | nil =>
      obtain ⟨fuel, rfl⟩ := Nat.exists_eq_succ_of_ne_zero (Nat.ne_of_gt enough)
      cases chain
      simp [getTotalSizeFrom]
  | cons node rest ih =>
      obtain ⟨rfl, nonnull, tail⟩ := chain
      obtain ⟨fuel, rfl⟩ := Nat.exists_eq_succ_of_ne_zero (Nat.ne_of_gt (Nat.zero_lt_of_lt enough))
      have first := ready head (by simp)
      have following := @ih fuel _ (total + (region (view.bytes world) head).size) tail
        (fun node member => ready node (by simp [member])) (Nat.lt_of_succ_lt_succ enough)
      simp only [getTotalSizeFrom, nonnull, first.loadSize, first.loadNext, Option.bind_eq_bind,
        Option.bind_some, if_false]
      rw [following, List.map_cons, List.sum_cons, BitVec.ofNat_add, BitVec.ofNat_toNat, BitVec.setWidth_eq,
        BitVec.add_assoc]

/-- Regions are whole pages: `BUFFER_SIZE` more than the request is any more at all. -/
theorem Inv.reachesSplit_iff (inv : Inv view vmm nodes live) {size : Word} (nonzero : alignSizeToPageSize size ≠ 0)
    (found : firstFit (view.bytes vmm.world) (alignSizeToPageSize size) nodes = some node) :
    (∃ freeRegion, ReachesSplit platform size vmm freeRegion) ↔
      alignSizeToPageSize size < (region (view.bytes vmm.world) node).size := by
  obtain ⟨member, _, fits⟩ := firstFit_some found
  have searched : findFirstFreeVirtualMemoryRegion platform (alignSizeToPageSize size) vmm = some node := by
    rw [inv.find_eq, found]
    rfl
  have load := (inv.regionMapped member).loadSize
  have pages := inv.layout.pages node member
  have aligned := alignSizeToPageSize_mod size
  have total : (alignSizeToPageSize size + bufferSize).toNat = (alignSizeToPageSize size).toNat + 16 := by
    unfold bufferSize
    bv_omega
  rw [BitVec.lt_def]
  constructor
  · rintro ⟨freeRegion, _, _, again, _, regionSize, loaded, long⟩
    cases again.symm.trans searched
    cases loaded.symm.trans load
    rw [BitVec.lt_def, total] at long
    omega
  · intro larger
    have based : vmm.vmBase ≠ 0 := by
      intro null
      have empty : nodes = [] := inv.layout.chain.unique null
      rw [empty] at member
      simp at member
    refine ⟨node, based, nonzero, searched, inv.layout.chain.ne_null member, _, load, ?_⟩
    rw [BitVec.lt_def, total]
    omega

/-- What a `vmm_alloc` may do. `middle` is the state after its call of
`kmalloc`, if it makes one; from there on only region nodes change. -/
def AllocOutcome (view : FlatView platform.toPlatform) (size : Word) (vmm : Vmm σ) (nodes : List Word)
    (live : List Live) (ptr : Word) (after : Vmm σ) : Prop :=
  ∃ middle nodes', after.vmBase = vmm.vmBase ∧ Inv view after nodes' (held ptr size live) ∧
    RecordsOnly view middle after.world nodes' ∧
    (middle = vmm.world ∧ nodes' = nodes ∨
      ∃ fresh freeRegion, ReachesSplit platform size vmm freeRegion ∧
        platform.kmalloc vmMetaSize vmm.world = some (fresh, middle) ∧
        ∀ node ∈ nodes', node ∈ nodes ∨ node = fresh ∧ fresh ≠ 0)

theorem Inv.idle (inv : Inv view vmm nodes live) (size : Word) :
    AllocOutcome view size vmm nodes live 0 vmm :=
  ⟨vmm.world, nodes, rfl, by simpa [held] using inv, ⟨subset_rfl, fun _ _ _ => rfl, rfl⟩, .inl ⟨rfl, rfl⟩⟩

/-- Mapping the pages of a region, whether or not there are frames for all of them. -/
theorem Inv.mapRegion (inv : Inv view vmm nodes live) (member : node ∈ nodes) {flags : Word}
    (keeps : PagesKeep view flags) :
    ∃ mapped after, mapRegionPages platform node flags walkFuel (region (view.bytes vmm.world) node).base
        vmm.world = some (mapped, after) ∧
      mapPages platform.toPlatform pageSize flags ((region (view.bytes vmm.world) node).size.toNat / 4096 + 1)
        (region (view.bytes vmm.world) node).base vmm.world = some (mapped, after) ∧ Grown view vmm.world after ∧
      (mapped = false → (platform.allocBlock after).1 = 0) := by
  have bounds := inv.layout.bounds member
  have pages := inv.layout.pages node member
  generalize baseEq : (region (view.bytes vmm.world) node).base = base at *
  generalize sizeEq : (region (view.bytes vmm.world) node).size = size at *
  have place : ∀ index < size.toNat / 4096 + 1,
      (runAddress base pageSize index).toNat = base.toNat + 4096 * index := by
    intro index below
    have stepSize : pageSize.toNat = 4096 := rfl
    rw [runAddress_toNat (by rw [stepSize]; omega), stepSize, Nat.mul_comm]
  have total : base.toNat + 4096 * (size.toNat / 4096 + 1) = base.toNat + size.toNat + 4096 := by omega
  rw [mapRegionPages_eq keeps bounds.2 (inv.regionMapped member) baseEq sizeEq bounds.1 total
    (by unfold walkFuel; omega)]
  have rounds : ∀ index < size.toNat / 4096 + 1, ∀ world, view.Sound world →
      RoundKeeps view flags (runAddress base pageSize index) world := by
    intro index below world
    have here := place index below
    exact keeps _ world (by omega) (by omega)
  obtain ⟨mapped, after, run, rest⟩ := mapPages_keeps inv.sound rounds
  exact ⟨mapped, after, run, run, rest⟩

/-- A `vmm_alloc` that has found a region: `middle` is the state after its call
of `kmalloc`, `cut` after the split and `paged` after the mapping loop. -/
structure Attempt (view : FlatView platform.toPlatform) (size flags : Word) (vmm : Vmm σ) (live : List Live)
    (front : List Word) (node fresh : Word) (back : List Word) (middle cut : σ) (mapped : Bool) (paged : σ) : Prop where
  reaches : ReachesSplit platform size vmm node
  free : (region (view.bytes vmm.world) node).free = true
  large : (alignSizeToPageSize size).toNat < (region (view.bytes vmm.world) node).size.toNat
  allocated : platform.kmalloc vmMetaSize vmm.world = some (fresh, middle)
  run : splitVirtualMemoryRegion platform node (alignSizeToPageSize size) vmm.world = some cut
  inv : Inv view { vmm with world := cut } (cutNodes front node fresh back) live
  only : RecordsWritten view middle cut (cutNodes front node fresh back)
  split : SplitRegion (view.bytes vmm.world) (view.bytes cut) (alignSizeToPageSize size) front node fresh back
  mapping : mapPages platform.toPlatform pageSize flags ((region (view.bytes cut) node).size.toNat / 4096 + 1)
    (region (view.bytes cut) node).base cut = some (mapped, paged)
  growth : Grown view cut paged
  stopped : mapped = false → (platform.allocBlock paged).1 = 0

/-- All a `vmm_alloc` can do: nothing, or an attempt that ends with the region
marked used if there were frames for all its pages. -/
theorem vmmAlloc_cases (inv : Inv view vmm nodes live) {size flags : Word} (pages : PagesKeep view flags)
    (keeps : ∀ freeRegion, ReachesSplit platform size vmm freeRegion → KmallocKeeps view nodes vmm.world) :
    ((∀ freeRegion, ¬ ReachesSplit platform size vmm freeRegion) ∧
      vmmAlloc platform size flags vmm = some (0, vmm)) ∨
    ∃ front node fresh back middle cut mapped paged, nodes = front ++ node :: back ∧
      Attempt view size flags vmm live front node fresh back middle cut mapped paged ∧
      (mapped = false ∧ vmmAlloc platform size flags vmm = some (0, { vmm with world := paged }) ∨
        mapped = true ∧ ∃ after, storeFree platform.toPlatform node false paged = some after ∧
          vmmAlloc platform size flags vmm =
            some ((region (view.bytes vmm.world) node).base, { vmm with world := after })) := by
  have aligned := alignSizeToPageSize_mod size
  unfold vmmAlloc
  by_cases refused : vmm.vmBase = 0 ∨ alignSizeToPageSize size = 0
  · simp only [refused, if_true]
    refine .inl ⟨fun freeRegion reaches => ?_, trivial⟩
    exact refused.elim reaches.1 reaches.2.1
  simp only [refused, if_false]
  rcases inv.find (alignSizeToPageSize size) with missing | ⟨node, member, found, nonnull, free, fits⟩
  · simp only [missing, Option.bind_eq_bind, Option.bind_some, if_true]
    refine .inl ⟨fun freeRegion reaches => ?_, trivial⟩
    exact reaches.2.2.2.1 (Option.some.inj (reaches.2.2.1.symm.trans missing))
  have load := (inv.regionMapped member).loadSize
  simp only [found, nonnull, load, Option.bind_eq_bind, Option.bind_some, if_false]
  by_cases short : (region (view.bytes vmm.world) node).size < alignSizeToPageSize size + bufferSize
  · simp only [short, if_true]
    refine .inl ⟨?_, trivial⟩
    rintro freeRegion ⟨_, _, again, _, regionSize, loaded, long⟩
    cases again.symm.trans found
    cases loaded.symm.trans load
    exact long short
  obtain ⟨based, sized⟩ := not_or.mp refused
  have reaches : ReachesSplit platform size vmm node := ⟨based, sized, found, nonnull, _, load, short⟩
  have positive : 0 < (alignSizeToPageSize size).toNat :=
    BitVec.toNat_pos_of_ne_zero sized
  have large : (alignSizeToPageSize size).toNat < (region (view.bytes vmm.world) node).size.toNat := by
    have exact : (alignSizeToPageSize size + bufferSize).toNat = (alignSizeToPageSize size).toNat + 16 := by
      unfold bufferSize
      bv_omega
    rw [BitVec.lt_def, exact] at short
    omega
  obtain ⟨front, back, rfl⟩ := List.append_of_mem member
  obtain ⟨fresh, middle, world1, allocated, cut, inv1, only1, split⟩ :=
    inv.split (keeps node reaches) free positive aligned large
  have member1 : node ∈ cutNodes front node fresh back := node_mem_cutNodes
  have node1 := inv1.regionMapped member1
  obtain ⟨mapped, world2, mapping, loop, growth, stopped⟩ := inv1.mapRegion member1 pages
  have attempt : Attempt view size flags vmm live front node fresh back middle world1 mapped world2 :=
    ⟨reaches, free, large, allocated, cut, inv1, only1, split, loop, growth, stopped⟩
  dsimp only at mapping growth
  simp only [short, cut, node1.loadBase, mapping, Option.bind_some, if_false]
  refine .inr ⟨front, node, fresh, back, middle, world1, mapped, world2, rfl, attempt, ?_⟩
  cases mapped with
  | false => exact .inl ⟨rfl, rfl⟩
  | true =>
      have node2 : RegionMapped view world2 node := ⟨growth.sound, node1.room, node1.mapped.trans growth.mapped⟩
      obtain ⟨world3, store, stored⟩ := node2.storeFree false
      refine .inr ⟨rfl, world3, store, ?_⟩
      have base : (region (view.bytes world3) node).base = (region (view.bytes vmm.world) node).base := by
        rw [stored.stored, region_congr node1.room (growth.bytes.mono node1.mapped), split.first, cutRegion_base]
      simp only [store, (node2.persist stored).loadBase, base, Option.bind_some, if_true]

namespace Attempt

variable {size flags fresh : Word} {middle cut paged : σ} {mapped : Bool}

theorem paged_inv (attempt : Attempt view size flags vmm live front node fresh back middle cut mapped paged) :
    Inv view { vmm with world := paged } (cutNodes front node fresh back) live :=
  @Inv.grown _ _ _ { vmm with world := cut } _ _ _ attempt.inv attempt.growth

/-- The region has room for the request, before and after its pages are mapped. -/
theorem paged_region (attempt : Attempt view size flags vmm live front node fresh back middle cut mapped paged)
    {other : Word} (member : other ∈ cutNodes front node fresh back) :
    region (view.bytes paged) other = region (view.bytes cut) other :=
  region_congr (attempt.inv.layout.room other member) (attempt.growth.bytes.mono (attempt.inv.mapped other member))

theorem fits (attempt : Attempt view size flags vmm live front node fresh back middle cut mapped paged) :
    (alignSizeToPageSize size).toNat ≤ (region (view.bytes cut) node).size.toNat := by
  rw [attempt.split.first, cutRegion]
  split
  · exact Nat.le_of_lt attempt.large
  · exact Nat.le_refl _

/-- A request that is not empty is for a page at least. -/
theorem size_positive (attempt : Attempt view size flags vmm live front node fresh back middle cut mapped paged) :
    4096 ≤ (alignSizeToPageSize size).toNat := by
  have aligned := alignSizeToPageSize_mod size
  have positive : (alignSizeToPageSize size).toNat ≠ 0 := fun zero => attempt.reaches.2.1 (BitVec.eq_of_toNat_eq zero)
  omega

theorem marked (attempt : Attempt view size flags vmm live front node fresh back middle cut mapped paged)
    (store : storeFree platform.toPlatform node false paged = some after) :
    view.Mapped after = view.Mapped paged ∧ (region (view.bytes after) node).free = false ∧
      RegionList (view.bytes after) vmm.vmBase (cutNodes front node fresh back) ∧
      ∀ other ∈ cutNodes front node fresh back, other ≠ node →
        region (view.bytes after) other = region (view.bytes cut) other := by
  have member : node ∈ cutNodes front node fresh back := node_mem_cutNodes
  obtain ⟨after', store', stored⟩ := (attempt.paged_inv.regionMapped member).storeFree false
  cases store.symm.trans store'
  have others : ∀ other ∈ cutNodes front node fresh back, other ≠ node →
      region (view.bytes after) other = region (view.bytes paged) other := fun other otherMember =>
    attempt.paged_inv.layout.region_other member stored.outside otherMember
  refine ⟨stored.mapped, by rw [stored.stored], attempt.paged_inv.layout.chain.congr fun other otherMember => ?_,
    fun other otherMember different => ?_⟩
  · by_cases same : other = node
    · rw [same, stored.stored]
    · rw [others other otherMember same]
  · rw [others other otherMember different, attempt.paged_region otherMember]

end Attempt

theorem vmmAlloc_spec (inv : Inv view vmm nodes live) {size flags : Word} (pages : PagesKeep view flags)
    (keeps : ∀ freeRegion, ReachesSplit platform size vmm freeRegion → KmallocKeeps view nodes vmm.world) :
    ∃ ptr after, vmmAlloc platform size flags vmm = some (ptr, after) ∧
      AllocOutcome view size vmm nodes live ptr after := by
  rcases vmmAlloc_cases inv pages keeps with ⟨_, run⟩ | ⟨front, node, fresh, back, middle, cut, mapped, paged,
    rfl, attempt, outcome⟩
  · exact ⟨0, vmm, run, inv.idle size⟩
  · have member := @node_mem_cutNodes front back node fresh
    have source : ∃ storage freeRegion, ReachesSplit platform size vmm freeRegion ∧
        platform.kmalloc vmMetaSize vmm.world = some (storage, middle) ∧
        ∀ other ∈ cutNodes front node fresh back, other ∈ front ++ node :: back ∨ other = storage ∧ storage ≠ 0 :=
      ⟨fresh, node, attempt.reaches, attempt.allocated, fun other => mem_cutNodes.mp⟩
    rcases outcome with ⟨_, run⟩ | ⟨_, after, store, run⟩
    · exact ⟨0, _, run, middle, _, rfl, by simpa [held] using attempt.paged_inv,
        attempt.only.toRecordsOnly.trans (attempt.growth.recordsOnly _), .inr source⟩
    · have same := attempt.paged_region member
      have base : (region (view.bytes paged) node).base = (region (view.bytes vmm.world) node).base := by
        rw [same, attempt.split.first, cutRegion_base]
      have pointer : (region (view.bytes vmm.world) node).base ≠ 0 := inv.base_ne_zero (by simp)
      obtain ⟨after', store', _, invAfter, only⟩ :=
        @Inv.take _ _ _ { vmm with world := paged } _ _ _ attempt.paged_inv member size
          (by rw [same, attempt.split.first, cutRegion_free]; exact attempt.free) (by rw [same]; exact attempt.fits)
      cases store.symm.trans store'
      dsimp only at invAfter only
      rw [base] at invAfter
      exact ⟨_, _, run, middle, _, rfl, by rw [held, if_neg pointer]; exact invAfter,
        (attempt.only.toRecordsOnly.trans (attempt.growth.recordsOnly _)).trans only, .inr source⟩

end ScratchOs.Vmm
