import ScratchOs.Heap.Growth

namespace ScratchOs.Heap

open Data

variable {σ : Type} {platform : Platform σ}

/-- `kmalloc` reaches `ksbrk` only when no block on the list is large enough. -/
def KmallocReady (view : FlatView platform) (nbytes : Word) (heap : Heap σ) : Prop :=
  findFirstFreeKernelBlock platform nbytes heap = some 0 → RequestReady view nbytes heap

/-- A request that the list cannot serve does not run past the end of the address space. -/
def RequestFits (platform : Platform σ) (nbytes : Word) (heap : Heap σ) : Prop :=
  findFirstFreeKernelBlock platform nbytes heap = some 0 →
    heap.endOfHeap.toNat + nbytes.toNat + 16 < 2 ^ 32

variable {view : FlatView platform} {heap : Heap σ} {blocks : List Word} {overhang block : Word}
  {live : List Live} {world : σ}

/-- `ksbrk` looks at a frame before it maps it. -/
theorem kmallocReady_of_ready
    (always : ∀ virtualAddr physicalAddr state, physicalAddr ≠ 0 → view.Ready virtualAddr physicalAddr state)
    (nbytes : Word) (heap : Heap σ) : KmallocReady view nbytes heap :=
  fun _ => ⟨readyRun_of_ready always .., fun _ _ _ => readyRun_of_ready always ..⟩

/-! `kmalloc` on a heap that satisfies the invariant. -/

variable {after : σ} {nbytes : Word} {front back : List Word}

theorem metaBlockSize_add_inj {left right : Word} (same : left + metaBlockSize = right + metaBlockSize) :
    left = right := by
  unfold metaBlockSize at same
  bv_omega

/-- A live pointer never belongs to a free block. -/
theorem Inv.pointer_fresh (inv : Inv view heap blocks overhang live)
    (free : (header (view.bytes heap.world) block).free = true) :
    block + metaBlockSize ∉ live.map Prod.fst := by
  intro listed
  obtain ⟨entry, member, pointer⟩ := List.mem_map.mp listed
  obtain ⟨owner, _, address, used, _⟩ := inv.owner entry member
  have same : owner = block := metaBlockSize_add_inj (address.symm.trans pointer)
  rw [same, free] at used
  contradiction

theorem Inv.take (inv : Inv view heap blocks overhang live) (member : block ∈ blocks)
    (free : (header (view.bytes heap.world) block).free = true) (positive : 0 < nbytes.toNat)
    (fits : nbytes.toNat ≤ (header (view.bytes heap.world) block).size.toNat) :
    ∃ after, storeFree platform block false heap.world = some after ∧
      Inv view { heap with world := after } blocks overhang ((block + metaBlockSize, nbytes) :: live) ∧
      RecordsWritten view heap.world after blocks ∧
      header (view.bytes after) block = { header (view.bytes heap.world) block with free := false } ∧
      ∀ other ∈ blocks, other ≠ block →
        header (view.bytes after) other = header (view.bytes heap.world) other := by
  obtain ⟨after, store, stored⟩ := (inv.headerMapped member).storeFree false
  have others : ∀ other ∈ blocks, other ≠ block →
      header (view.bytes after) other = header (view.bytes heap.world) other := fun other otherMember =>
    inv.layout.header_other member stored.outside otherMember
  refine ⟨after, store, ⟨stored.sound, inv.base, inv.layout.setFree member stored.stored stored.outside,
    ?_, ?_, ?_, ?_⟩, stored.recordsWritten member, stored.stored, others⟩
  · exact stored.mapped ▸ inv.mapped
  · intro entry entryMember
    rcases List.mem_cons.mp entryMember with rfl | entryMember
    · exact ⟨block, member, rfl, by rw [stored.stored], by rw [stored.stored]; exact fits⟩
    · obtain ⟨owner, listed, pointer, used, large⟩ := inv.owner entry entryMember
      have different : owner ≠ block := by
        rintro rfl
        rw [free] at used
        contradiction
      rw [← others owner listed different] at used large
      exact ⟨owner, listed, pointer, used, large⟩
  · exact List.forall_mem_cons.mpr ⟨positive, inv.positive⟩
  · exact List.nodup_cons.mpr ⟨inv.pointer_fresh free, inv.nodup⟩

/-- The stores of `splitBlock`: the two headers are as intended, nothing else has changed. -/
theorem splitBlock_stores {fresh : Word} (blockReady : HeaderMapped view world block)
    (freshReady : HeaderMapped view world fresh) (place : block + nbytes + metaBlockSize = fresh)
    (apart : headerSpan block ⊆ (headerSpan fresh)ᶜ) :
    ∃ after, splitBlock platform block nbytes world = some after ∧ view.Sound after ∧
      header (view.bytes after) block = { header (view.bytes world) block with next := fresh, size := nbytes } ∧
      header (view.bytes after) fresh =
        { next := (header (view.bytes world) block).next,
          size := (header (view.bytes world) block).size - nbytes - metaBlockSize,
          free := true, canary := canaryValue } ∧
      Set.EqOn (view.bytes after) (view.bytes world) (headerSpan block ∪ headerSpan fresh)ᶜ ∧
      view.Mapped after = view.Mapped world ∧ view.globals after = view.globals world := by
  have apart' : headerSpan fresh ⊆ (headerSpan block)ᶜ := Set.subset_compl_comm.mp apart
  -- In the order of the source.
  obtain ⟨world1, store1, stored1⟩ := blockReady.storeSize nbytes
  have block1 := blockReady.persist stored1
  obtain ⟨world2, store2, stored2⟩ := (freshReady.persist stored1).storeFree true
  have fresh2 := (freshReady.persist stored1).persist stored2
  have block2 := block1.persist stored2
  obtain ⟨world3, store3, stored3⟩ := fresh2.storeNext (header (view.bytes world2) block).next
  have fresh3 := fresh2.persist stored3
  obtain ⟨world4, store4, stored4⟩ := fresh3.storeSize
    ((header (view.bytes world) block).size - nbytes - metaBlockSize)
  have fresh4 := fresh3.persist stored4
  obtain ⟨world5, store5, stored5⟩ := fresh4.storeCanary canaryValue
  have block5 := (((block2.persist stored3).persist stored4).persist stored5)
  obtain ⟨world6, store6, stored6⟩ := block5.storeNext fresh
  have freshStored := ((stored2.trans stored3).trans stored4).trans stored5
  have blockAt2 : header (view.bytes world2) block = header (view.bytes world1) block :=
    header_congr blockReady.room (stored2.outside.mono apart)
  have blockAt5 : header (view.bytes world5) block = header (view.bytes world1) block :=
    header_congr blockReady.room (freshStored.outside.mono apart)
  have freshAt6 : header (view.bytes world6) fresh = header (view.bytes world5) fresh :=
    header_congr freshReady.room (stored6.outside.mono apart')
  refine ⟨world6, ?_, stored6.sound, ?_, ?_, ?_, stored6.mapped.trans (freshStored.mapped.trans stored1.mapped),
    stored6.globals.trans (freshStored.globals.trans stored1.globals)⟩
  · simp only [splitBlock, blockReady.loadSize, store1, block1.loadSize, stored1.stored, place, store2,
      block2.loadNext, store3, store4, store5, store6, Option.bind_eq_bind, Option.bind_some]
  · rw [stored6.stored, blockAt5, stored1.stored]
  · rw [freshAt6, stored5.stored, stored4.stored, stored3.stored, stored2.stored, blockAt2, stored1.stored]
  · rw [Set.compl_union]
    exact ((stored6.outside.mono Set.inter_subset_left).trans
      (freshStored.outside.mono Set.inter_subset_right)).trans (stored1.outside.mono Set.inter_subset_left)

/-- Cutting a free block in two keeps everything else. -/
theorem Inv.split (inv : Inv view heap (front ++ block :: back) overhang live)
    (free : (header (view.bytes heap.world) block).free = true)
    (large : nbytes.toNat + 80 < (header (view.bytes heap.world) block).size.toNat) :
    ∃ after fresh, splitBlock platform block nbytes heap.world = some after ∧
      Inv view { heap with world := after } (front ++ block :: fresh :: back)
        (Layout.overhangAfterSplit overhang block fresh) live ∧
      RecordsWritten view heap.world after (front ++ block :: fresh :: back) ∧
      chunkAt (view.bytes after) block = ⟨block, nbytes, true⟩ ∧
      chunkAt (view.bytes after) fresh = ⟨block + nbytes + metaBlockSize,
        (header (view.bytes heap.world) block).size - nbytes - metaBlockSize, true⟩ ∧
      ∀ other ∈ front ++ back, header (view.bytes after) other = header (view.bytes heap.world) other := by
  have member : block ∈ front ++ block :: back := by simp
  obtain ⟨address, remaining, reach⟩ := inv.layout.split_addresses member large
  have bounds := inv.layout.bounds member
  have sizes := effectiveSize_le (view.bytes heap.world) overhang block
  generalize freshEq : block + nbytes + metaBlockSize = fresh at address
  have freshReady : HeaderMapped view heap.world fresh := inv.headerMapped_of_le (by omega) (by omega)
  have apart : headerSpan block ⊆ (headerSpan fresh)ᶜ := by
    intro place
    simp only [Set.mem_compl_iff, mem_span]
    omega
  obtain ⟨after, run, sound, blockFinal, freshFinal, outside, mapped, globals⟩ :=
    splitBlock_stores (inv.headerMapped member) freshReady freshEq apart
  have kept : ∀ other ∈ front ++ back,
      header (view.bytes after) other = header (view.bytes heap.world) other := by
    intro other rest
    refine inv.layout.header_kept (outside.mono ?_) rest
    intro place
    simp only [Set.mem_compl_iff, Set.mem_union, mem_span]
    omega
  have layout := inv.layout.split large freshEq.symm
    (by rw [blockFinal]; exact ⟨rfl, rfl, inv.layout.canary block member⟩)
    (by rw [freshFinal]; exact ⟨rfl, rfl, rfl⟩) outside
  refine ⟨after, fresh, run, ⟨sound, inv.base, layout, mapped ▸ inv.mapped, ?_, inv.positive, inv.nodup⟩,
    ⟨⟨mapped.superset, ?_, globals⟩, mapped.subset⟩, ?_, ?_, kept⟩
  · intro entry entryMember
    obtain ⟨owner, listed, pointer, used, fits⟩ := inv.owner entry entryMember
    have different : owner ≠ block := by
      rintro rfl
      rw [free] at used
      contradiction
    have rest : owner ∈ front ++ back := by
      simp only [List.mem_append, List.mem_cons] at listed ⊢
      tauto
    refine ⟨owner, ?_, pointer, by rwa [kept owner rest], by rwa [kept owner rest]⟩
    simp only [List.mem_append, List.mem_cons] at rest ⊢
    tauto
  · intro place _ elsewhere
    apply outside
    rw [Set.mem_compl_iff, Set.mem_union, not_or]
    exact ⟨elsewhere block (by simp), elsewhere fresh (by simp)⟩
  · rw [chunkAt, blockFinal, free]
  · rw [chunkAt, freshFinal]

/-- Linking in the block `request_space` made at the end of the heap. -/
theorem Inv.extend (inv : Inv view heap (front ++ [block]) overhang live) {finish : Word}
    (positive : 0 < nbytes.toNat)
    (grown : finish.toNat = heap.endOfHeap.toNat + 16 + nbytes.toNat) (limit : finish.toNat ≤ 0xE0000000)
    (covered : span heap.endOfHeap.toNat (nbytes.toNat + 17) ⊆ view.Mapped heap.world)
    (created : HeaderStored view heap.world world heap.endOfHeap (requestedHeader nbytes)) :
    getLastKernelBlock platform { heap with endOfHeap := finish, world := world } = some block ∧
    ∃ linked after, storeNext platform block heap.endOfHeap world = some linked ∧
      storeFree platform heap.endOfHeap false linked = some after ∧
      Inv view { heap with endOfHeap := finish, world := after } (front ++ [block, heap.endOfHeap]) overhang
        ((heap.endOfHeap + metaBlockSize, nbytes) :: live) ∧
      RecordsWritten view heap.world after (front ++ [block, heap.endOfHeap]) ∧
      chunksOf (view.bytes after) (front ++ [block, heap.endOfHeap]) =
        chunksOf (view.bytes heap.world) (front ++ [block]) ++ [⟨heap.endOfHeap, nbytes, false⟩] := by
  have member : block ∈ front ++ [block] := by simp
  have below : ∀ piece ∈ front ++ [block], 0xD0000000 ≤ piece.toNat ∧
      piece.toNat + 16 ≤ heap.endOfHeap.toNat := by
    intro piece pieceMember
    have bounds := inv.layout.bounds pieceMember
    omega
  have blockBelow := below block member
  have apart : ∀ piece ∈ front ++ [block], headerSpan piece ⊆ (headerSpan heap.endOfHeap)ᶜ := by
    intro piece pieceMember place
    have ends := below piece pieceMember
    simp only [Set.mem_compl_iff, mem_span]
    omega
  have same : ∀ piece ∈ front ++ [block],
      header (view.bytes world) piece = header (view.bytes heap.world) piece := fun piece pieceMember =>
    header_congr (inv.layout.room pieceMember) (created.outside.mono (apart piece pieceMember))
  have ready : ∀ piece ∈ front ++ [block], HeaderMapped view world piece := fun piece pieceMember =>
    (inv.headerMapped pieceMember).persist created
  have freshReady : HeaderMapped view world heap.endOfHeap := by
    refine ⟨created.sound, by omega, created.mapped ▸ Set.Subset.trans ?_ covered⟩
    intro place
    simp only [mem_span]
    omega
  have walked : getLastKernelBlock platform { heap with endOfHeap := finish, world := world } = some block := by
    have fuel := inv.layout.length_lt_walkFuel
    simp only [List.length_append, List.length_singleton] at fuel
    unfold getLastKernelBlock
    rw [inv.base]
    exact getLastKernelBlockFrom_eq
      (inv.layout.chain.congr fun piece pieceMember => by rw [same piece pieceMember]) ready (by omega)
  obtain ⟨linked, store1, stored1⟩ := (ready block member).storeNext heap.endOfHeap
  obtain ⟨after, store2, stored2⟩ := (freshReady.persist stored1).storeFree false
  have freshFinal : header (view.bytes after) heap.endOfHeap = requestedHeader nbytes := by
    rw [stored2.stored, header_congr freshReady.room
      (stored1.outside.mono (Set.subset_compl_comm.mp (apart block member))), created.stored]
    rfl
  have blockFinal : header (view.bytes after) block =
      { header (view.bytes heap.world) block with next := heap.endOfHeap } := by
    rw [header_congr (inv.layout.room member) (stored2.outside.mono (apart block member)),
      stored1.stored, same block member]
  have outside : Set.EqOn (view.bytes after) (view.bytes heap.world)
      (headerSpan block ∪ headerSpan heap.endOfHeap)ᶜ := by
    rw [Set.compl_union]
    exact ((stored2.outside.mono Set.inter_subset_right).trans
      (stored1.outside.mono Set.inter_subset_left)).trans (created.outside.mono Set.inter_subset_right)
  have mapped : view.Mapped after = view.Mapped heap.world :=
    stored2.mapped.trans (stored1.mapped.trans created.mapped)
  have layout := inv.layout.extend grown limit (by rw [blockFinal]; exact ⟨rfl, rfl, rfl⟩)
    (by rw [freshFinal]; exact ⟨rfl, rfl, rfl⟩) outside
  have freshNe : ∀ piece ∈ front ++ [block], piece ≠ heap.endOfHeap := by
    rintro piece pieceMember rfl
    have ends := below heap.endOfHeap pieceMember
    omega
  have kept : ∀ piece ∈ front ++ [block],
      (header (view.bytes after) piece).free = (header (view.bytes heap.world) piece).free ∧
      (header (view.bytes after) piece).size = (header (view.bytes heap.world) piece).size := by
    intro piece pieceMember
    by_cases last : piece = block
    · rw [last, blockFinal]
      exact ⟨rfl, rfl⟩
    · have untouched : header (view.bytes after) piece = header (view.bytes heap.world) piece := by
        apply header_congr (inv.layout.room pieceMember) (outside.mono _)
        rw [Set.compl_union]
        exact Set.subset_inter (inv.layout.headers_apart member pieceMember last) (apart piece pieceMember)
      rw [untouched]
      exact ⟨rfl, rfl⟩
  refine ⟨walked, linked, after, store1, store2, ⟨stored2.sound, inv.base, layout, ?_, ?_, ?_, ?_⟩,
    ⟨⟨mapped.superset, ?_, stored2.globals.trans (stored1.globals.trans created.globals)⟩, mapped.subset⟩, ?_⟩
  · intro place inside
    dsimp only at inside
    rw [mapped]
    rw [mem_span_to] at inside
    by_cases old : place.toNat < heap.endOfHeap.toNat
    · apply inv.mapped
      rw [mem_span_to]
      omega
    · apply covered
      rw [mem_span]
      omega
  · intro entry entryMember
    rcases List.mem_cons.mp entryMember with rfl | entryMember
    · exact ⟨heap.endOfHeap, by simp, rfl, by rw [freshFinal]; rfl, by rw [freshFinal]; rfl⟩
    · obtain ⟨owner, listed, pointer, used, fits⟩ := inv.owner entry entryMember
      obtain ⟨sameFree, sameSize⟩ := kept owner listed
      refine ⟨owner, ?_, pointer, by rwa [sameFree], by rwa [sameSize]⟩
      simp only [List.mem_append, List.mem_cons] at listed ⊢
      tauto
  · exact List.forall_mem_cons.mpr ⟨positive, inv.positive⟩
  · refine List.nodup_cons.mpr ⟨?_, inv.nodup⟩
    intro listed
    obtain ⟨entry, entryMember, pointer⟩ := List.mem_map.mp listed
    obtain ⟨owner, ownerListed, address, _⟩ := inv.owner entry entryMember
    exact freshNe owner ownerListed (metaBlockSize_add_inj (address.symm.trans pointer))
  · intro place _ elsewhere
    apply outside
    rw [Set.mem_compl_iff, Set.mem_union, not_or]
    exact ⟨elsewhere block (by simp), elsewhere heap.endOfHeap (by simp)⟩
  · have old : chunksOf (view.bytes after) (front ++ [block]) = chunksOf (view.bytes heap.world) (front ++ [block]) := by
      refine List.map_congr_left fun piece pieceMember => ?_
      rw [chunkAt, (kept piece pieceMember).1, (kept piece pieceMember).2, chunkAt]
    rw [show front ++ [block, heap.endOfHeap] = (front ++ [block]) ++ [heap.endOfHeap] by simp, chunksOf_append, old,
      chunksOf_cons, chunksOf_nil, chunkAt, freshFinal, requestedHeader]

/-- The two outcomes of the search: nothing suits, or the first block that does. -/
theorem Inv.find (inv : Inv view heap blocks overhang live) (nbytes : Word) :
    (findFirstFreeKernelBlock platform nbytes heap = some 0 ∧
      ∀ chunk ∈ chunksOf (view.bytes heap.world) blocks, chunk.suits nbytes = false) ∨
    ∃ front block back, blocks = front ++ block :: back ∧
      findFirstFreeKernelBlock platform nbytes heap = some block ∧ block ≠ 0 ∧
      (chunkAt (view.bytes heap.world) block).suits nbytes = true ∧
      ∀ chunk ∈ chunksOf (view.bytes heap.world) front, chunk.suits nbytes = false := by
  have walked := inv.layout.chain.findNode_eq inv.layout.length_lt_walkFuel fun node member =>
    ⟨(inv.headerMapped member).blockFits nbytes, (inv.headerMapped member).loadNext⟩
  rw [← inv.base] at walked
  change findFirstFreeKernelBlock platform nbytes heap =
    some ((blocks.find? fun node => (chunkAt (view.bytes heap.world) node).suits nbytes).getD 0) at walked
  cases found : blocks.find? fun node => (chunkAt (view.bytes heap.world) node).suits nbytes with
  | none =>
      refine .inl ⟨by rw [walked, found]; rfl, List.forall_mem_map.mpr fun node member => ?_⟩
      exact Bool.eq_false_iff.mpr (List.find?_eq_none.mp found node member)
  | some block =>
      obtain ⟨suits, front, back, rfl, skipped⟩ := List.find?_eq_some_iff_append.mp found
      refine .inr ⟨front, block, back, rfl, by rw [walked, found]; rfl,
        inv.layout.chain.ne_null (by simp), suits, List.forall_mem_map.mpr fun node member => ?_⟩
      simpa using skipped node member

/-- A client holds the pointer unless it is `NULL`. -/
def held (ptr nbytes : Word) (live : List Live) : List Live :=
  if ptr = 0 then live else (ptr, nbytes) :: live

theorem held_of_ne {ptr : Word} (nonnull : ptr ≠ 0) (nbytes : Word) (live : List Live) :
    held ptr nbytes live = (ptr, nbytes) :: live := if_neg nonnull

theorem mem_held {ptr : Word} {live : List Live} {entry : Live} :
    entry ∈ held ptr nbytes live ↔ ptr ≠ 0 ∧ entry = (ptr, nbytes) ∨ entry ∈ live := by
  unfold held
  split
  · rename_i null
    simp only [null, ne_eq, not_true_eq_false, false_and, false_or]
  · rename_i nonnull
    simp only [List.mem_cons, ne_eq, nonnull, not_false_eq_true, true_and]

theorem Inv.pointer_ne_zero (inv : Inv view heap blocks overhang live) (member : block ∈ blocks) :
    block + metaBlockSize ≠ 0 := by
  have bounds := inv.layout.bounds member
  have pointer := @toNat_add_metaBlockSize block (by omega)
  bv_omega

/-- No pointer that the ledger hands out is `NULL`. -/
theorem Inv.placed (inv : Inv view heap blocks overhang live) :
    (∀ chunk ∈ chunksOf (view.bytes heap.world) blocks, chunk.place + metaBlockSize ≠ 0) ∧
      heap.endOfHeap + metaBlockSize ≠ 0 := by
  refine ⟨List.forall_mem_map.mpr fun block member => inv.pointer_ne_zero member, ?_⟩
  have bounds := inv.layout.bounds inv.layout.overhang_mem
  unfold metaBlockSize
  bv_omega

theorem suits_iff {memory : ByteMemory} : (chunkAt memory block).suits nbytes = true ↔
    (header memory block).free = true ∧ nbytes.toNat ≤ (header memory block).size.toNat := by
  simp only [Chunk.suits, chunkAt, Bool.and_eq_true, decide_eq_true_eq, BitVec.le_def]

theorem Inv.kmalloc_found (inv : Inv view heap (front ++ block :: back) overhang live) (positive : 0 < nbytes.toNat)
    (suits : (chunkAt (view.bytes heap.world) block).suits nbytes = true) :
    ∃ world after blocks' overhang',
      (if nbytes + metaBlockSize + minMemBlockSize < (header (view.bytes heap.world) block).size
        then splitBlock platform block nbytes heap.world else some heap.world) = some world ∧
      storeFree platform block false world = some after ∧
      Inv view { heap with world := after } blocks' overhang' ((block + metaBlockSize, nbytes) :: live) ∧
      RecordsWritten view heap.world after blocks' ∧
      chunksOf (view.bytes after) blocks' = chunksOf (view.bytes heap.world) front ++
        ((chunkAt (view.bytes heap.world) block).cut nbytes ++ chunksOf (view.bytes heap.world) back) := by
  have member : block ∈ front ++ block :: back := by simp
  obtain ⟨free, fits⟩ := suits_iff.mp suits
  -- A block of the list is no larger than the window, so the sum does not wrap.
  have window := inv.layout.bounds member
  have whole := (effectiveSize_le (view.bytes heap.world) overhang block).2
  have total : (nbytes + metaBlockSize + minMemBlockSize).toNat = nbytes.toNat + 80 := by
    have small : nbytes.toNat ≤ 0x10000010 := by omega
    unfold metaBlockSize minMemBlockSize
    bv_omega
  by_cases large : nbytes + metaBlockSize + minMemBlockSize < (header (view.bytes heap.world) block).size
  · have room := large
    rw [BitVec.lt_def, total] at room
    obtain ⟨world, fresh, cut, invCut, headersCut, blockCut, freshCut, keptCut⟩ := inv.split free room
    have sizeCut : (header (view.bytes world) block).size = nbytes := congrArg Chunk.size blockCut
    obtain ⟨after, store, invTaken, headersTaken, taken, keptTaken⟩ :=
      @Inv.take _ _ _ { heap with world := world } _ _ block _ nbytes invCut (by simp)
        (congrArg Chunk.free blockCut) positive (Nat.le_of_eq (congrArg BitVec.toNat sizeCut.symm))
    refine ⟨world, after, _, _, by rw [if_pos large, cut], store, invTaken, headersCut.trans headersTaken, ?_⟩
    have nodup := invCut.layout.nodup
    have kept : ∀ other ∈ front ++ back,
        header (view.bytes after) other = header (view.bytes heap.world) other := by
      intro other rest
      have different : other ≠ block := invCut.layout.ne_of_mem_rest (by
        rw [List.mem_append, List.mem_cons]
        exact (List.mem_append.mp rest).imp_right .inr)
      rw [keptTaken other (by simp only [List.mem_append, List.mem_cons] at rest ⊢; tauto) different, keptCut other rest]
    have freshKept := keptTaken fresh (by simp) (invCut.layout.ne_of_mem_rest (by simp))
    have replaced := @chunksOf_replace _ _ front back [block, fresh] kept
    rw [List.cons_append, List.cons_append, List.nil_append] at replaced
    rw [replaced, Chunk.cut, if_pos (by exact large)]
    have freshFinal : chunkAt (view.bytes after) fresh = chunkAt (view.bytes world) fresh := by
      rw [chunkAt, freshKept, chunkAt]
    have blockFinal : chunkAt (view.bytes after) block = ⟨block, nbytes, false⟩ := by
      rw [chunkAt, taken]
      exact congrArg (fun size => Chunk.mk block size false) sizeCut
    rw [chunksOf_cons, chunksOf_cons, chunksOf_nil, freshFinal, freshCut, blockFinal]
    rfl
  · obtain ⟨after, store, invTaken, headersTaken, taken, keptTaken⟩ := inv.take member free positive fits
    refine ⟨heap.world, after, _, overhang, if_neg large, store, invTaken, headersTaken, ?_⟩
    have kept : ∀ other ∈ front ++ back,
        header (view.bytes after) other = header (view.bytes heap.world) other := fun other rest =>
      keptTaken other (Layout.mem_of_mem_rest rest) (inv.layout.ne_of_mem_rest rest)
    have replaced := @chunksOf_replace _ _ front back [block] kept
    rw [List.cons_append, List.nil_append] at replaced
    rw [replaced, Chunk.cut, if_neg (by exact large), chunksOf_cons, chunksOf_nil, chunkAt, taken]
    rfl

theorem Inv.requestFits (inv : Inv view heap blocks overhang live) (small : nbytes.toNat ≤ 0x10000000) :
    RequestFits platform nbytes heap := by
  intro _
  have bounds := inv.layout.bounds inv.layout.overhang_mem
  omega

/-- The heap as a ledger. -/
def ledger (view : FlatView platform) (heap : Heap σ) (blocks : List Word) : Ledger :=
  ⟨chunksOf (view.bytes heap.world) blocks, heap.endOfHeap⟩

theorem Inv.find_of_serve (inv : Inv view heap blocks overhang live) {place : Word} {chunks : List Chunk}
    (served : serve nbytes (chunksOf (view.bytes heap.world) blocks) = some (place, chunks)) :
    findFirstFreeKernelBlock platform nbytes heap = some place ∧ place ∈ blocks ∧ place ≠ 0 := by
  rcases inv.find nbytes with ⟨_, unfit⟩ | ⟨front, block, back, rfl, found, nonnull, suits, unfit⟩
  · rw [serve_eq_none unfit] at served
    contradiction
  · rw [chunksOf_append, chunksOf_cons, serve_append unfit suits] at served
    cases served
    exact ⟨found, by simp [chunkAt], nonnull⟩

/-- `kmalloc` returns, keeps the invariant, writes headers only and is a step of the ledger. -/
theorem kmalloc_spec (allowed : HeapAllowed view) (inv : Inv view heap blocks overhang live)
    (fitting : RequestFits platform nbytes heap) (ready : KmallocReady view nbytes heap) :
    ∃ ptr after blocks' overhang', kmalloc platform nbytes heap = some (ptr, after) ∧
      Inv view after blocks' overhang' (held ptr nbytes live) ∧
      RecordsOnly view heap.world after.world blocks' ∧
      (NewPages view heap.world after.world heap.endOfHeap.toNat (heap.endOfHeap.toNat + 16 + nbytes.toNat) ∧
        (ptr ≠ 0 → NewPages view heap.world after.world heap.endOfHeap.toNat after.endOfHeap.toNat)) ∧
      Allocates nbytes (ledger view heap blocks) ptr (ledger view after blocks') := by
  have base : heap.gMemoryBase ≠ 0 := by
    rw [inv.base]
    decide
  by_cases empty : nbytes = 0
  · refine ⟨0, heap, blocks, overhang, ?_, by simpa [held] using inv, (Grown.refl inv.sound).recordsOnly _,
      ⟨.of_subset subset_rfl, fun _ => .of_subset subset_rfl⟩, .refused (.inl empty)⟩
    rw [kmalloc, if_pos (.inl empty)]
  have positive : 0 < nbytes.toNat := BitVec.toNat_pos_of_ne_zero empty
  unfold kmalloc
  rw [if_neg (not_or.mpr ⟨empty, base⟩)]
  rcases inv.find nbytes with ⟨missing, unfit⟩ | ⟨front, block, back, rfl, found, nonnull, suits, unfit⟩
  · have bounds := inv.layout.bounds inv.layout.overhang_mem
    have outcome := requestSpace_spec allowed inv.sound (by omega) (by omega) (fitting missing)
      (ready missing)
    simp only [missing, Option.bind_eq_bind, Option.bind_some, if_true]
    rcases outcome with ⟨world, request, growth, early⟩ | ⟨middle, world, finish, request, grown, limit, growth,
      fresh, covered, created⟩
    · refine ⟨0, { heap with world := world }, blocks, overhang, ?_, by simpa [held] using inv.grown growth,
        growth.recordsOnly _, ⟨early, fun nonnull => absurd rfl nonnull⟩, ?_⟩
      · simp only [request, Option.bind_some, if_true]
      · have same : ledger view { heap with world := world } blocks = ledger view heap blocks :=
          congrArg (Ledger.mk · heap.endOfHeap) (inv.chunks_grown growth)
        rw [same]
        exact .refused (.inr (serve_eq_none unfit))
    · obtain ⟨front, block, rfl⟩ := List.eq_nil_or_concat' blocks |>.resolve_left
        (List.ne_nil_of_mem inv.layout.overhang_mem)
      have nonnull : heap.endOfHeap ≠ 0 := by
        intro zero
        rw [zero] at bounds
        simp at bounds
      have pointer : heap.endOfHeap + metaBlockSize ≠ 0 := by
        unfold metaBlockSize
        bv_omega
      obtain ⟨walked, linked, after, store1, store2, invAfter, headers, chunks⟩ :=
        @Inv.extend _ _ _ { heap with world := middle } _ _ _ _ _ _ (inv.grown growth) finish positive grown
          limit covered created
      refine ⟨_, _, _, _, ?_, by rw [held, if_neg pointer]; exact invAfter,
        (growth.recordsOnly _).trans headers.toRecordsOnly, ⟨fresh.trans (.of_subset headers.same), fun _ => ?_⟩, ?_⟩
      · dsimp only at walked store1 store2
        simp only [request, nonnull, walked, store1, store2, Option.bind_some, if_false]
      · dsimp only
        rw [grown]
        exact fresh.trans (.of_subset headers.same)
      · dsimp only at chunks
        rw [inv.chunks_grown growth] at chunks
        have step := @Allocates.extended nbytes (ledger view heap (front ++ [block])) finish empty
          (serve_eq_none unfit) grown limit
        rw [ledger, ← chunks] at step
        exact step
  · have member : block ∈ front ++ block :: back := by simp
    obtain ⟨world, after, blocks', overhang', cut, store, invAfter, headers, chunks⟩ :=
      inv.kmalloc_found positive suits
    refine ⟨_, _, blocks', overhang', ?_, by rw [held, if_neg (inv.pointer_ne_zero member)]; exact invAfter,
      headers.toRecordsOnly, ⟨.of_subset headers.same, fun _ => .of_subset headers.same⟩, ?_⟩
    · simp only [found, nonnull, (inv.headerMapped member).loadSize, Option.bind_eq_bind, Option.bind_some,
        if_false]
      by_cases large : nbytes + metaBlockSize + minMemBlockSize < (header (view.bytes heap.world) block).size
      · rw [if_pos large] at cut ⊢
        simp only [cut, store, Option.bind_some]
      · rw [if_neg large] at cut ⊢
        cases cut
        simp only [store, Option.bind_some]
    · have fits := @serve_append nbytes _ _ (chunksOf (view.bytes heap.world) back) unfit suits
      rw [← chunks, ← chunksOf_cons, ← chunksOf_append] at fits
      exact .served empty fits

/-- A request that the list can serve is served from the list. -/
theorem kmalloc_of_serve (allowed : HeapAllowed view) (inv : Inv view heap blocks overhang live) (nonzero : nbytes ≠ 0)
    {place : Word} {chunks : List Chunk} (serves : serve nbytes (chunksOf (view.bytes heap.world) blocks) =
      some (place, chunks)) :
    ∃ after blocks' overhang', kmalloc platform nbytes heap = some (place + metaBlockSize, after) ∧
      Inv view after blocks' overhang' ((place + metaBlockSize, nbytes) :: live) ∧
      NewPages view heap.world after.world heap.endOfHeap.toNat after.endOfHeap.toNat ∧
      ledger view after blocks' = ⟨chunks, heap.endOfHeap⟩ := by
  obtain ⟨found, member, nonnull⟩ := inv.find_of_serve serves
  have stored : findFirstFreeKernelBlock platform nbytes heap ≠ some 0 := by
    rw [found]
    simpa using nonnull
  obtain ⟨ptr, after, blocks', overhang', run, invAfter, _, fresh, step⟩ :=
    kmalloc_spec allowed inv (fun missing => absurd missing stored) (fun missing => absurd missing stored)
  have pointer := inv.pointer_ne_zero member
  generalize afterwards : ledger view after blocks' = state at step
  rcases step.cases with ⟨_, _, zero | missing⟩ | ⟨_, spot, rfl, same, finish⟩ | ⟨_, _, missing, _⟩
  · exact absurd zero nonzero
  · cases serves.symm.trans missing
  · obtain ⟨rfl, rfl⟩ := Prod.mk.inj (Option.some.inj (serves.symm.trans same))
    rw [held_of_ne pointer] at invAfter
    refine ⟨after, blocks', overhang', run, invAfter, fresh.2 pointer, ?_⟩
    rw [afterwards]
    exact congrArg (Ledger.mk state.chunks) finish
  · cases serves.symm.trans missing

/-- A request that finds a free block is served. -/
theorem Inv.kmalloc_ne_zero (allowed : HeapAllowed view) (inv : Inv view heap blocks overhang live) (nonzero : nbytes ≠ 0)
    (found : findFirstFreeKernelBlock platform nbytes heap ≠ some 0) {ptr : Word} {after : Heap σ}
    (run : kmalloc platform nbytes heap = some (ptr, after)) : ptr ≠ 0 := by
  rcases inv.find nbytes with ⟨missing, _⟩ | ⟨front, block, back, rfl, _, _, suits, unfit⟩
  · exact absurd missing found
  · have serves := @serve_append nbytes _ _ (chunksOf (view.bytes heap.world) back) unfit suits
    rw [← chunksOf_cons, ← chunksOf_append] at serves
    obtain ⟨_, _, _, result, _⟩ := kmalloc_of_serve allowed inv nonzero serves
    cases run.symm.trans result
    exact inv.pointer_ne_zero (by simp [chunkAt])

/-- Without a free block and without a frame nothing happens at all. -/
theorem kmalloc_exhausted (sound : view.Sound heap.world) (null : (platform.allocBlock heap.world).1 = 0)
    (fitting : RequestFits platform nbytes heap)
    (missing : findFirstFreeKernelBlock platform nbytes heap = some 0) :
    kmalloc platform nbytes heap = some (0, heap) := by
  have fits := fitting missing
  have asked := @toNat_add_metaBlockSize nbytes (by omega)
  have first : ksbrk platform 0 heap = some (0, heap) := ksbrk_null (by bv_omega) sound null
  have second : ksbrk platform (nbytes + metaBlockSize) heap = some (0, heap) := ksbrk_null (by omega) sound null
  unfold kmalloc
  split
  · rfl
  · simp only [missing, requestSpace, first, second, Option.bind_eq_bind, Option.bind_some, ne_eq, not_true_eq_false,
      if_false, if_true]

/-! `kfree` of a live pointer. -/

/-- A live pointer stands behind a used block, and the guard of `kfree` lets it through. -/
theorem Inv.block_of_live (inv : Inv view heap blocks overhang live) {ptr : Word}
    (member : (ptr, nbytes) ∈ live) :
    ptr - metaBlockSize ∈ blocks ∧ ptr = ptr - metaBlockSize + metaBlockSize ∧
      (header (view.bytes heap.world) (ptr - metaBlockSize)).free = false ∧
      ¬(ptr = 0 ∨ kernelHeapEnd ≤ ptr ∨ ptr ≤ kernelHeapStart) := by
  obtain ⟨block, listed, pointer, used, fits⟩ := inv.owner _ member
  dsimp only at pointer fits
  subst pointer
  have same : block + metaBlockSize - metaBlockSize = block := BitVec.add_sub_cancel ..
  have positive : 0 < nbytes.toNat := inv.positive _ member
  have bounds := inv.layout.bounds listed
  have room : 0 < effectiveSize (view.bytes heap.world) overhang block := by
    by_cases last : block = overhang
    · have large := inv.layout.overhang_size
      rw [last, effectiveSize_self]
      omega
    · rw [effectiveSize_of_ne last]
      omega
  rw [same]
  refine ⟨listed, rfl, used, ?_⟩
  rw [BitVec.le_def, BitVec.le_def, kernelHeapStart_toNat, kernelHeapEnd_toNat]
  unfold metaBlockSize
  bv_omega

/-- What is left of the clients' pointers after one is given back. -/
def dropped (ptr : Word) (live : List Live) : List Live := live.filter fun entry => entry.1 ≠ ptr

/-- Marking the block of a live pointer free. -/
theorem Inv.release (inv : Inv view heap blocks overhang live) (member : block ∈ blocks) :
    ∃ after, storeFree platform block true heap.world = some after ∧
      Inv view { heap with world := after } blocks overhang (dropped (block + metaBlockSize) live) ∧
      RecordsWritten view heap.world after [block] ∧
      header (view.bytes after) block = { header (view.bytes heap.world) block with free := true } ∧
      ∀ other ∈ blocks, other ≠ block →
        header (view.bytes after) other = header (view.bytes heap.world) other := by
  obtain ⟨after, store, stored⟩ := (inv.headerMapped member).storeFree true
  refine ⟨after, store, ⟨stored.sound, inv.base, inv.layout.setFree member stored.stored stored.outside,
    stored.mapped ▸ inv.mapped, ?_, ?_, ?_⟩, stored.recordsWritten (by simp), stored.stored,
    fun other listed => inv.layout.header_other member stored.outside listed⟩
  · intro entry entryMember
    simp only [dropped, List.mem_filter, decide_eq_true_eq] at entryMember
    obtain ⟨owner, listed, pointer, used, fits⟩ := inv.owner entry entryMember.1
    have different : owner ≠ block := by
      rintro rfl
      exact entryMember.2 pointer
    have kept := inv.layout.header_other member stored.outside listed different
    exact ⟨owner, listed, pointer, by rwa [kept], by rwa [kept]⟩
  · exact fun entry entryMember => inv.positive entry (List.mem_filter.mp entryMember).1
  · exact inv.nodup.sublist (List.Sublist.map _ List.filter_sublist)

/-- Merging a free block with a free successor. -/
theorem Inv.merge {other : Word} (inv : Inv view heap (front ++ block :: other :: back) overhang live)
    (free : (header (view.bytes heap.world) block).free = true)
    (otherFree : (header (view.bytes heap.world) other).free = true) :
    ∃ linked after, storeNext platform block (header (view.bytes heap.world) other).next heap.world =
        some linked ∧
      loadSize platform block linked = some (header (view.bytes heap.world) block).size ∧
      loadSize platform other linked = some (header (view.bytes heap.world) other).size ∧
      storeSize platform block ((header (view.bytes heap.world) block).size +
        ((header (view.bytes heap.world) other).size + metaBlockSize)) linked = some after ∧
      Inv view { heap with world := after } (front ++ block :: back)
        (Layout.overhangAfterMerge overhang block other) live ∧
      RecordsWritten view heap.world after [block] ∧
      chunkAt (view.bytes after) block = ⟨block, (header (view.bytes heap.world) block).size +
        ((header (view.bytes heap.world) other).size + metaBlockSize), true⟩ ∧
      ∀ piece ∈ front ++ back, header (view.bytes after) piece = header (view.bytes heap.world) piece := by
  have member : block ∈ front ++ block :: other :: back := by simp
  have otherMember : other ∈ front ++ block :: other :: back := by simp
  have otherNe : other ≠ block := inv.layout.ne_of_mem_rest (by simp)
  obtain ⟨linked, store1, stored1⟩ := (inv.headerMapped member).storeNext
    (header (view.bytes heap.world) other).next
  have blockReady := (inv.headerMapped member).persist stored1
  have otherReady := (inv.headerMapped otherMember).persist stored1
  have otherKept := inv.layout.header_other member stored1.outside otherMember otherNe
  obtain ⟨after, store2, stored2⟩ := blockReady.storeSize ((header (view.bytes heap.world) block).size +
        ((header (view.bytes heap.world) other).size + metaBlockSize))
  have stored := stored1.trans stored2
  rw [stored1.stored] at stored
  have layout := inv.layout.merge (by rw [stored.stored]; exact ⟨rfl, rfl, inv.layout.canary block member⟩)
    stored.outside
  refine ⟨linked, after, store1, ?_, ?_, store2,
    ⟨stored.sound, inv.base, layout, stored.mapped ▸ inv.mapped, ?_, inv.positive, inv.nodup⟩,
    stored.recordsWritten (by simp), ?_, fun piece rest => inv.layout.header_other member stored.outside
      (Layout.mem_of_mem_rest (Layout.mem_of_mem_rest rest))
      (inv.layout.ne_of_mem_rest (Layout.mem_of_mem_rest rest))⟩
  · rw [blockReady.loadSize, stored1.stored]
  · rw [otherReady.loadSize, otherKept]
  · intro entry entryMember
    obtain ⟨owner, listed, pointer, used, fits⟩ := inv.owner entry entryMember
    have notBlock : owner ≠ block := by
      rintro rfl
      rw [free] at used
      contradiction
    have notOther : owner ≠ other := by
      rintro rfl
      rw [otherFree] at used
      contradiction
    have kept := inv.layout.header_other member stored.outside listed notBlock
    refine ⟨owner, ?_, pointer, by rwa [kept], by rwa [kept]⟩
    simp only [List.mem_append, List.mem_cons] at listed ⊢
    tauto
  · rw [chunkAt, stored.stored, free]

/-- `kfree` of a live pointer returns, keeps the invariant, writes headers only
and releases the chunk of the ledger. -/
theorem kfree_spec (inv : Inv view heap blocks overhang live) {ptr : Word} (member : (ptr, nbytes) ∈ live) :
    ∃ after blocks' overhang', kfree platform ptr heap = some after ∧
      Inv view after blocks' overhang' (dropped ptr live) ∧
      RecordsWritten view heap.world after.world blocks' ∧
      ledger view after blocks' =
        ⟨release (ptr - metaBlockSize) (chunksOf (view.bytes heap.world) blocks), heap.endOfHeap⟩ := by
  obtain ⟨listed, pointer, used, passes⟩ := inv.block_of_live member
  have ready := inv.headerMapped listed
  have canary := inv.layout.canary _ listed
  unfold kfree
  rw [if_neg passes]
  generalize ptr - metaBlockSize = block at *
  subst pointer
  obtain ⟨world, store, invFree, headers, freed, keptFree⟩ := inv.release listed
  have free : (header (view.bytes world) block).free = true := by rw [freed]
  have readyFree := invFree.headerMapped listed
  obtain ⟨front, back, rfl⟩ := List.append_of_mem listed
  have elsewhere : ∀ chunk ∈ chunksOf (view.bytes heap.world) front, chunk.place ≠ block := by
    refine List.forall_mem_map.mpr fun piece pieceMember => ?_
    exact inv.layout.ne_of_mem_rest (List.mem_append_left _ pieceMember)
  have released := @release_append block _ (chunksOf (view.bytes heap.world) front)
    (chunksOf (view.bytes heap.world) back) elsewhere (show (chunkAt (view.bytes heap.world) block).place = block from rfl)
  have kept : ∀ other ∈ front ++ back,
      header (view.bytes world) other = header (view.bytes heap.world) other := fun other rest =>
    keptFree other (Layout.mem_of_mem_rest rest) (inv.layout.ne_of_mem_rest rest)
  have blockFree : chunkAt (view.bytes world) block =
      ⟨block, (header (view.bytes heap.world) block).size, true⟩ := by rw [chunkAt, freed]
  have replaced := @chunksOf_replace _ _ front back [block] kept
  rw [List.cons_append, List.nil_append, chunksOf_cons, chunksOf_nil, blockFree] at replaced
  rw [chunksOf_append, chunksOf_cons, released]
  simp only [ready.loadCanary, canary, store, readyFree.loadNext, Option.bind_eq_bind, Option.bind_some,
    ne_eq, not_true_eq_false, if_false]
  cases back with
  | nil =>
      have terminated := invFree.layout.chain.next_eq_null
      dsimp only at terminated
      rw [if_pos terminated]
      refine ⟨_, _, _, rfl, invFree, headers.mono (by simp), ?_⟩
      rw [ledger, replaced]
      rfl
  | cons other rest =>
      have next := invFree.layout.chain.next_eq_head
      have otherMember : other ∈ front ++ block :: other :: rest := by simp
      have nonnull : other ≠ 0 := invFree.layout.chain.ne_null otherMember
      have otherReady := invFree.headerMapped otherMember
      have otherKept := kept other (by simp)
      dsimp only at next otherReady
      rw [next, if_neg nonnull]
      simp only [otherReady.loadFree, Option.bind_some]
      rw [chunksOf_cons, Chunk.absorb]
      cases otherFree : (header (view.bytes world) other).free with
      | false =>
          refine ⟨_, _, _, rfl, invFree, headers.mono (by simp), ?_⟩
          rw [otherKept] at otherFree
          rw [ledger, replaced, if_neg (by rw [chunkAt, otherFree]; simp)]
          rfl
      | true =>
          obtain ⟨linked, after, store1, load1, load2, store2, invMerged, headersMerged, merged, keptMerged⟩ :=
            invFree.merge free otherFree
          dsimp only at store1 load1 load2 store2 headersMerged merged keptMerged
          simp only [otherReady.loadNext, store1, load1, load2, store2, Option.bind_some, if_true]
          refine ⟨_, _, _, rfl, invMerged, (headers.trans headersMerged).mono (by simp), ?_⟩
          have keptAll : ∀ piece ∈ front ++ rest,
              header (view.bytes after) piece = header (view.bytes heap.world) piece := fun piece pieceRest =>
            (keptMerged piece pieceRest).trans (kept piece (Layout.mem_of_mem_rest pieceRest))
          have replacedAll := @chunksOf_replace _ _ front rest [block] keptAll
          rw [List.cons_append, List.nil_append, chunksOf_cons, chunksOf_nil, merged, freed, otherKept] at replacedAll
          rw [otherKept] at otherFree
          rw [ledger, replacedAll, if_pos (by rw [chunkAt, otherFree])]
          rfl

end ScratchOs.Heap
