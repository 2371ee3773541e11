import ScratchOs.Heap.Invariant

namespace ScratchOs.Heap

open Data

variable {σ : Type} {platform : Platform σ}

/-! How the heap gets its pages: `initialize_kernel_heap`, `ksbrk` and `request_space`.

The `Ready` predicates say that every call of `map_address` in a loop finds
what it needs; on flat memory they always hold.
-/

def ReadyPages (view : FlatView platform) : Nat → Word → σ → Prop
  | 0, _, _ => True
  | left + 1, virtualAddr, world =>
      view.Ready virtualAddr (platform.allocBlock world).1 (platform.allocBlock world).2 ∧
        ∀ after, platform.mapAddress virtualAddr (platform.allocBlock world).1 pteReadWrite
            (platform.allocBlock world).2 = some (true, after) →
          ReadyPages view left (virtualAddr + pageSize) after

def KsbrkReady (view : FlatView platform) (nbytes : Word) (heap : Heap σ) : Prop :=
  ReadyRun view 1 pteReadWrite ((heap.endOfHeap + nbytes).toNat + 1 - heap.endOfHeap.toNat) heap.endOfHeap heap.world

def RequestReady (view : FlatView platform) (size : Word) (heap : Heap σ) : Prop :=
  KsbrkReady view 0 heap ∧
    ∀ block middle, ksbrk platform 0 heap = some (block, middle) →
      KsbrkReady view (size + metaBlockSize) middle

/-- The heap window may be mapped writable. -/
def HeapAllowed (view : FlatView platform) : Prop :=
  ∀ address : Word, 0xD0000000 ≤ address.toNat → address.toNat ≤ 0xE0000000 →
    view.Allowed address pteReadWrite

variable {view : FlatView platform} {heap : Heap σ} {blocks : List Word} {overhang block : Word}
  {live : List Live} {world : σ}

theorem ReadyPages.weaken {other : FlatView platform} {count : Nat} {virtualAddr : Word}
    (ready : ReadyPages view count virtualAddr world)
    (weaker : ∀ {virtualAddr physicalAddr state}, view.Ready virtualAddr physicalAddr state →
      other.Ready virtualAddr physicalAddr state) : ReadyPages other count virtualAddr world := by
  induction count generalizing virtualAddr world with
  | zero => trivial
  | succ count ih => exact ⟨weaker ready.1, fun after run => ih (ready.2 after run)⟩

theorem mapInitialPages_succ {platform : Platform σ} {left : Nat} {virtualAddr : Word} {world mapped : σ}
    {result : Bool × σ}
    (entered : platform.mapAddress virtualAddr (platform.allocBlock world).1 pteReadWrite
      (platform.allocBlock world).2 = some (true, mapped))
    (rest : mapInitialPages platform left (virtualAddr + pageSize) mapped = some result) :
    mapInitialPages platform (left + 1) virtualAddr world = some result := by
  rw [mapInitialPages]
  simp only [entered, Option.bind_eq_bind, Option.bind_some, if_true]
  exact rest

theorem mapInitialPages_spec (allowed : HeapAllowed view) {count : Nat} {virtualAddr : Word}
    (sound : view.Sound world) (lower : 0xD0000000 ≤ virtualAddr.toNat)
    (upper : virtualAddr.toNat + 4096 * count ≤ 0xE0000000) (aligned : virtualAddr.toNat % 4096 = 0)
    (ready : ReadyPages view count virtualAddr world) :
    ∃ mapped after, mapInitialPages platform count virtualAddr world = some (mapped, after) ∧
      Grown view world after ∧
      (mapped = true → span virtualAddr.toNat (4096 * count) ⊆ view.Mapped after) := by
  induction count generalizing virtualAddr world with
  | zero =>
      refine ⟨true, world, rfl, .refl sound, fun _ address inside => ?_⟩
      simp only [mem_span] at inside
      omega
  | succ count ih =>
      obtain ⟨readyHere, readyRest⟩ := ready
      obtain ⟨mapped, next, mapping, keeps⟩ :=
        view.mapAddress sound (allowed virtualAddr lower (by omega)) readyHere
      obtain ⟨soundNext, grows, bytes, globals, page, _⟩ := keeps next (.inl rfl)
      rw [mapInitialPages]
      simp only [mapping, Option.bind_eq_bind, Option.bind_some]
      cases mapped with
      | false => exact ⟨false, next, rfl, ⟨soundNext, grows, bytes, globals⟩, by simp⟩
      | true =>
          have advance : (virtualAddr + pageSize).toNat = virtualAddr.toNat + 4096 := by
            unfold pageSize
            bv_omega
          have limit : virtualAddr.toNat + 4096 + 4096 * count ≤ 0xE0000000 := by
            rw [Nat.mul_succ] at upper
            omega
          obtain ⟨done, after, run, growth, covered⟩ := ih soundNext
            (by rw [advance]; exact Nat.le_add_right_of_le lower) (by rwa [advance])
            (by rw [advance, Nat.add_mod_right]; exact aligned) (readyRest next mapping)
          refine ⟨done, after, run, Grown.trans ⟨soundNext, grows, bytes, globals⟩ growth, ?_⟩
          intro finished address inside
          simp only [mem_span] at inside
          by_cases first : address.toNat < virtualAddr.toNat + 4096
          · refine growth.mapped (page ?_)
            simp only [pageOf, mem_span]
            omega
          · refine covered finished ?_
            rw [mem_span, advance]
            omega

/-- `initialize_kernel_heap` either gives up and leaves `g_memory_base` at
`NULL`, or leaves one free block. -/
theorem initializeKernelHeap_spec (allowed : HeapAllowed view) (sound : view.Sound world)
    (ready : ReadyPages view initialPages kernelHeapStart world) :
    (∃ after, mapInitialPages platform initialPages kernelHeapStart world = some (false, after) ∧
      view.Sound after ∧
      initializeKernelHeap platform world = some { gMemoryBase := 0, endOfHeap := 0, world := after }) ∨
    (∃ mapped heap, mapInitialPages platform initialPages kernelHeapStart world = some (true, mapped) ∧
      initializeKernelHeap platform world = some heap ∧
      heap.endOfHeap = kernelHeapStart + initialKernelHeapSize ∧
      Inv view heap [kernelHeapStart] kernelHeapStart [] ∧
      header (view.bytes heap.world) kernelHeapStart =
        { next := 0, size := initialKernelHeapSize, free := true, canary := canaryValue } ∧
      view.Mapped heap.world = view.Mapped mapped) := by
  have pages : initialPages = 17 := rfl
  obtain ⟨mapped, after, run, growth, covered⟩ := mapInitialPages_spec allowed sound (by decide)
    (by rw [pages]; decide) (by decide) ready
  cases mapped with
  | false =>
      refine .inl ⟨after, run, growth.sound, ?_⟩
      simp only [initializeKernelHeap, run, Option.bind_eq_bind, Option.bind_some, Bool.false_eq_true, if_false]
  | true =>
      have covers := covered rfl
      rw [pages, kernelHeapStart_toNat] at covers
      have ready0 : HeaderMapped view after kernelHeapStart := by
        refine ⟨growth.sound, by decide, Set.Subset.trans ?_ covers⟩
        intro address
        simp only [mem_span, kernelHeapStart_toNat]
        omega
      obtain ⟨world1, store1, stored1⟩ := ready0.storeFree true
      have ready1 := ready0.persist stored1
      obtain ⟨world2, store2, stored2⟩ := ready1.storeSize initialKernelHeapSize
      have ready2 := ready1.persist stored2
      obtain ⟨world3, store3, stored3⟩ := ready2.storeNext 0
      have ready3 := ready2.persist stored3
      obtain ⟨world4, store4, stored4⟩ := ready3.storeCanary canaryValue
      have ready4 := ready3.persist stored4
      have final : header (view.bytes world4) kernelHeapStart =
          { next := 0, size := initialKernelHeapSize, free := true, canary := canaryValue } := by
        rw [stored4.stored, stored3.stored, stored2.stored, stored1.stored]
      have mapped4 : view.Mapped world4 = view.Mapped after :=
        stored4.mapped.trans (stored3.mapped.trans (stored2.mapped.trans stored1.mapped))
      refine .inr ⟨after, ⟨kernelHeapStart, kernelHeapStart + initialKernelHeapSize, world4⟩, run, ?_, rfl,
        ⟨stored4.sound, rfl, Layout.initial final, ?_, by simp, by simp, by simp⟩, final, mapped4⟩
      · simp only [initializeKernelHeap, run, store1, store2, store3, store4, ready4.loadSize, final,
          Option.bind_eq_bind, Option.bind_some, if_true]
      · dsimp only
        rw [mapped4]
        refine Set.Subset.trans ?_ covers
        intro address
        rw [mem_span_to, mem_span, show (kernelHeapStart + initialKernelHeapSize).toNat = 0xD0010000 from rfl]
        omega

theorem mapHeapBytes_spec (allowed : HeapAllowed view) {count : Nat} {virtualAddr : Word}
    (sound : view.Sound world) (lower : 0xD0000000 ≤ virtualAddr.toNat)
    (upper : virtualAddr.toNat + count ≤ 0xE0000001)
    (ready : ReadyRun view 1 pteReadWrite count virtualAddr world) :
    ∃ mapped after, mapHeapBytes platform count virtualAddr world = some (mapped, after) ∧
      Grown view world after ∧ (mapped = true → span virtualAddr.toNat count ⊆ view.Mapped after) ∧
      NewPages view world after virtualAddr.toNat (virtualAddr.toNat + count - 1) := by
  have place : ∀ index < count, (runAddress virtualAddr 1 index).toNat = virtualAddr.toNat + index := by
    intro index below
    rw [runAddress, show BitVec.ofNat 32 index * 1 = BitVec.ofNat 32 index from BitVec.mul_one _,
      BitVec.toNat_add, BitVec.toNat_ofNat]
    omega
  obtain ⟨mapped, after, run, growth, covered, fresh⟩ := mapPages_spec sound
    (fun index below => allowed _ (by rw [place index below]; omega) (by rw [place index below]; omega)) ready
  refine ⟨mapped, after, run, growth, ?_, ?_⟩
  · intro finished address inside
    rw [mem_span] at inside
    have below : address.toNat - virtualAddr.toNat < count := by omega
    have same : runAddress virtualAddr 1 (address.toNat - virtualAddr.toNat) = address := by
      apply BitVec.eq_of_toNat_eq
      rw [place _ below]
      omega
    have page := covered finished _ below
    rw [same] at page
    exact page (mem_pageOf address)
  · intro address there absent
    obtain ⟨index, below, page⟩ := fresh address there absent
    rw [pageOf, mem_span, place index below] at page
    omega

/-- The two outcomes of `ksbrk` for a request that cannot wrap. -/
theorem ksbrk_spec (allowed : HeapAllowed view) {nbytes : Word} (sound : view.Sound heap.world)
    (lower : 0xD0000000 ≤ heap.endOfHeap.toNat) (upper : heap.endOfHeap.toNat ≤ 0xE0000000)
    (fits : heap.endOfHeap.toNat + nbytes.toNat < 2 ^ 32) (ready : KsbrkReady view nbytes heap) :
    (∃ after, ksbrk platform nbytes heap = some (0, { heap with world := after }) ∧
      Grown view heap.world after ∧
      NewPages view heap.world after heap.endOfHeap.toNat (heap.endOfHeap.toNat + nbytes.toNat)) ∨
    (∃ after, ksbrk platform nbytes heap =
        some (heap.endOfHeap, { heap with endOfHeap := heap.endOfHeap + nbytes, world := after }) ∧
      Grown view heap.world after ∧
      NewPages view heap.world after heap.endOfHeap.toNat (heap.endOfHeap.toNat + nbytes.toNat) ∧
      (heap.endOfHeap + nbytes).toNat = heap.endOfHeap.toNat + nbytes.toNat ∧
      (heap.endOfHeap + nbytes).toNat ≤ 0xE0000000 ∧
      span heap.endOfHeap.toNat (nbytes.toNat + 1) ⊆ view.Mapped after) := by
  have total : (heap.endOfHeap + nbytes).toNat = heap.endOfHeap.toNat + nbytes.toNat := by bv_omega
  unfold ksbrk
  by_cases tooFar : kernelHeapEnd < heap.endOfHeap + nbytes
  · rw [if_pos tooFar]
    exact .inl ⟨heap.world, rfl, .refl sound, .of_subset subset_rfl⟩
  · have limit : (heap.endOfHeap + nbytes).toNat ≤ 0xE0000000 := by
      rw [BitVec.lt_def, kernelHeapEnd_toNat] at tooFar
      omega
    obtain ⟨mapped, after, run, growth, covered, fresh⟩ := mapHeapBytes_spec allowed sound lower (by omega) ready
    have last : heap.endOfHeap.toNat + ((heap.endOfHeap + nbytes).toNat + 1 - heap.endOfHeap.toNat) - 1 =
        heap.endOfHeap.toNat + nbytes.toNat := by omega
    rw [last] at fresh
    rw [if_neg tooFar]
    simp only [run, Option.bind_eq_bind, Option.bind_some]
    cases mapped with
    | false => exact .inl ⟨after, rfl, growth, fresh⟩
    | true =>
        refine .inr ⟨after, rfl, growth, fresh, total, limit, ?_⟩
        refine Set.Subset.trans ?_ (covered rfl)
        intro address
        simp only [mem_span]
        omega

/-- Without a frame `ksbrk` gives up at once and nothing has happened. -/
theorem ksbrk_null {nbytes : Word} (fits : heap.endOfHeap.toNat + nbytes.toNat < 2 ^ 32)
    (sound : view.Sound heap.world)
    (null : (platform.allocBlock heap.world).1 = 0) : ksbrk platform nbytes heap = some (0, heap) := by
  have unchanged := view.allocBlock_null sound null
  unfold ksbrk
  split
  · rfl
  · have first : (heap.endOfHeap + nbytes).toNat + 1 - heap.endOfHeap.toNat = nbytes.toNat + 1 := by bv_omega
    simp only [first, mapHeapBytes, mapPages, null, unchanged, if_true, Option.bind_eq_bind, Option.bind_some,
      Bool.false_eq_true, if_false]

/-- `ksbrk(0)` fails for lack of a frame only. -/
theorem ksbrk_zero_spec (allowed : HeapAllowed view) (sound : view.Sound heap.world)
    (lower : 0xD0000000 ≤ heap.endOfHeap.toNat) (upper : heap.endOfHeap.toNat ≤ 0xE0000000)
    (ready : KsbrkReady view 0 heap) :
    (platform.allocBlock heap.world).1 = 0 ∨
    ∃ after, ksbrk platform 0 heap = some (heap.endOfHeap, { heap with world := after }) ∧
      Grown view heap.world after ∧ view.Mapped after ⊆ view.Mapped heap.world ∪ pageOf heap.endOfHeap := by
  by_cases null : (platform.allocBlock heap.world).1 = 0
  · exact .inl null
  · refine .inr ?_
    have steps : (heap.endOfHeap + 0).toNat + 1 - heap.endOfHeap.toNat = 1 := by bv_omega
    have within : ¬ kernelHeapEnd < heap.endOfHeap + 0 := by
      rw [BitVec.lt_def, kernelHeapEnd_toNat]
      bv_omega
    unfold KsbrkReady at ready
    rw [steps] at ready
    obtain ⟨readyHere, _⟩ := ready null
    obtain ⟨mapped, next, mapping, keeps⟩ := view.mapAddress sound (allowed _ lower upper) readyHere
    obtain ⟨soundNext, grows, bytes, globals, _, only⟩ := keeps
      (if mapped then next else platform.freeBlock (platform.allocBlock heap.world).1 next)
      (by cases mapped <;> simp)
    refine ⟨_, ?_, ⟨soundNext, grows, bytes, globals⟩, only⟩
    unfold ksbrk
    rw [if_neg within]
    simp only [steps, mapHeapBytes, mapPages, null, mapping, if_false, Option.bind_eq_bind, Option.bind_some, if_true]
    simp

/-- The header `request_space` writes for a block of `size` bytes. -/
def requestedHeader (size : Word) : Header :=
  { next := 0, size := size, free := false, canary := canaryValue }

theorem requestSpace_spec (allowed : HeapAllowed view) {size : Word} (sound : view.Sound heap.world)
    (lower : 0xD0000000 ≤ heap.endOfHeap.toNat) (upper : heap.endOfHeap.toNat ≤ 0xE0000000)
    (fits : heap.endOfHeap.toNat + size.toNat + 16 < 2 ^ 32) (ready : RequestReady view size heap) :
    (∃ after, requestSpace platform size heap = some (0, { heap with world := after }) ∧
      Grown view heap.world after ∧
      NewPages view heap.world after heap.endOfHeap.toNat (heap.endOfHeap.toNat + 16 + size.toNat)) ∨
    (∃ middle after finish, requestSpace platform size heap =
        some (heap.endOfHeap, { heap with endOfHeap := finish, world := after }) ∧
      finish.toNat = heap.endOfHeap.toNat + 16 + size.toNat ∧ finish.toNat ≤ 0xE0000000 ∧
      Grown view heap.world middle ∧
      NewPages view heap.world middle heap.endOfHeap.toNat (heap.endOfHeap.toNat + 16 + size.toNat) ∧
      span heap.endOfHeap.toNat (size.toNat + 17) ⊆ view.Mapped middle ∧
      HeaderStored view middle after heap.endOfHeap (requestedHeader size)) := by
  have nonnull : heap.endOfHeap ≠ 0 := by
    intro zero
    rw [zero] at lower
    simp at lower
  have asked := @toNat_add_metaBlockSize size (by omega)
  rcases ksbrk_zero_spec allowed sound lower upper ready.1 with null | ⟨first, zeroRun, zeroGrown, zeroOnly⟩
  · refine .inl ⟨heap.world, ?_, .refl sound, .of_subset subset_rfl⟩
    have zeroRun : ksbrk platform 0 heap = some (0, heap) := ksbrk_null (by bv_omega) sound null
    have sizeRun : ksbrk platform (size + metaBlockSize) heap = some (0, heap) :=
      ksbrk_null (by omega) sound null
    simp only [requestSpace, zeroRun, sizeRun, Option.bind_eq_bind, Option.bind_some, ne_eq,
      not_true_eq_false, if_false, if_true]
  · have outcome := @ksbrk_spec _ _ _ { heap with world := first } allowed (size + metaBlockSize)
      zeroGrown.sound lower upper (by dsimp only; omega) (ready.2 _ _ zeroRun)
    have zeroFresh : NewPages view heap.world first heap.endOfHeap.toNat (heap.endOfHeap.toNat + 16 + size.toNat) := by
      intro address there absent
      have page := (zeroOnly there).resolve_left absent
      rw [pageOf, mem_span] at page
      omega
    have reach : heap.endOfHeap.toNat + (size + metaBlockSize).toNat = heap.endOfHeap.toNat + 16 + size.toNat := by omega
    dsimp only at outcome
    rw [reach] at outcome
    rcases outcome with ⟨after, run, growth, fresh⟩ | ⟨after, run, growth, fresh, finish, limit, covered⟩
    · refine .inl ⟨after, ?_, zeroGrown.trans growth, zeroFresh.trans fresh⟩
      simp only [requestSpace, zeroRun, run, Option.bind_eq_bind, Option.bind_some, ne_eq, nonnull,
        not_false_eq_true, if_true]
    · have ready0 : HeaderMapped view after heap.endOfHeap := by
        refine ⟨growth.sound, by omega, Set.Subset.trans ?_ covered⟩
        intro address
        simp only [mem_span]
        omega
      obtain ⟨world1, store1, stored1⟩ := ready0.storeSize size
      obtain ⟨world2, store2, stored2⟩ := (ready0.persist stored1).storeNext 0
      have ready2 := (ready0.persist stored1).persist stored2
      obtain ⟨world3, store3, stored3⟩ := ready2.storeFree false
      obtain ⟨world4, store4, stored4⟩ := (ready2.persist stored3).storeCanary canaryValue
      have stored := ((stored1.trans stored2).trans stored3).trans stored4
      rw [stored3.stored, stored2.stored, stored1.stored] at stored
      refine .inr ⟨after, world4, heap.endOfHeap + (size + metaBlockSize), ?_, by omega, limit,
        zeroGrown.trans growth, zeroFresh.trans fresh, ?_, stored⟩
      · simp only [requestSpace, zeroRun, run, store1, store2, store3, store4, Option.bind_eq_bind,
          Option.bind_some, ne_eq, not_true_eq_false, nonnull, if_false]
      · refine Set.Subset.trans ?_ covered
        intro address
        simp only [mem_span]
        omega

end ScratchOs.Heap
